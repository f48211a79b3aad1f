import SqlAnywhere.Table

/-!
# Comparing two versions of a table (`compare.rs`)

`Compare.table` compares a table in one schema of a connection with the same table in another:
rows only in `after`, rows in both with some compared column different, rows only in `before`.

The statements compare values by `IS`, under the collations of the columns; the columns of an
updated row are compared by `==` of Rust, which does not tell the two zeros of `f64` apart.  The SQL
engine enters through an `Engine`: the order of `ORDER BY`, the vector distance, what triggers and
foreign-key actions do after a statement, and what the deferred foreign keys accept at a commit.
-/

namespace SqlAnywhere

open List Keyed

/-- The schemas a merge works with: the live database and the two it attaches. -/
inductive Schema
  | main
  | base
  | branch
  deriving DecidableEq, Repr

/-- The name a schema has in SQL. -/
def Schema.name : Schema → String
  | main => "main"
  | base => "sqlanywhere_merge_base"
  | branch => "sqlanywhere_merge_branch"

/-- What a connection sees under each schema name. -/
abbrev Conn := Schema → Db

/-- The parts of the engine that the comparison calls and does not define. -/
structure Engine where
  /-- `ORDER BY` the key of a table with these columns. -/
  keyLe : List Column → List Value → List Value → Bool
  keyLe_refl : ∀ columns k, keyLe columns k k = true
  /-- `vector_distance_cos`, where it does not fail. -/
  distance : List UInt8 → List UInt8 → Option UInt64
  /-- The live database after what triggers and foreign-key actions add to a statement: whether that
  is an `INSERT OR REPLACE`, the database before it, and what the statement itself makes of it. -/
  react : Bool → Db → Db → Db
  /-- The foreign keys hold, which is checked at the commit. -/
  foreignKeys : Db → Bool

/-- There is no trigger, and no foreign key with an action. -/
def Engine.Quiet (E : Engine) : Prop := ∀ replaces before after, E.react replaces before after = after

/-- The errors of `compare.rs` and `merge3.rs`. -/
inductive Error
  /-- compare::table: no table `{table}` in schema `{schema}` -/
  | noTable (table : String) (schema : Schema)
  /-- compare::table: key column `{missing}` of {after}.{table} is missing in {before} -/
  | missingKey (missing : String) (after : Schema) (table : String) (before : Schema)
  /-- merge3: writing {key:?} of {table} changed {changed} rows, not 1 -/
  | notOneRow (key : List Value) (table : String) (changed : ℕ)
  | sqlite (e : SqlError)
  deriving DecidableEq, Repr

/-- How a row differs between the two versions of the table. -/
inductive RowKind
  | inserted
  | updated
  | deleted
  deriving DecidableEq, Repr

/-- One column of a changed row. -/
structure ColumnDiff where
  column : String
  before : Option Value
  after : Option Value
  vectorDistance : Option UInt64
  deriving DecidableEq, Repr

/-- One row that differs. -/
structure RowDiff where
  key : List Value
  kind : RowKind
  columns : List ColumnDiff
  deriving DecidableEq, Repr

/-- The change to `column`, if this row has one. -/
def RowDiff.column (d : RowDiff) (column : String) : Option ColumnDiff :=
  d.columns.find? (fun c => c.column == column)

/-- The difference between two versions of a table. -/
structure TableDiff where
  table : String
  key : List String
  rows : List RowDiff
  addedColumns : List String
  droppedColumns : List String
  deriving DecidableEq, Repr

def TableDiff.isEmpty (d : TableDiff) : Bool := d.rows.isEmpty

/-- A declared type that names a vector: `FLOAT32(n)`, `F32_BLOB(n)` and the like. -/
def Column.isVector (c : Column) : Bool :=
  let t := c.decl.toList.map Char.toUpper
  t.contains '(' && ("FLOAT".toList.isPrefixOf t || "_BLOB".toList.isSuffixOf t ||
    t.tails.any (fun s => "_BLOB(".toList.isPrefixOf s))

namespace Compare

/-- `o.k IS n.k` for every key column; the collation is that of the left operand. -/
def joined (before : List Column) (key : List String) (o n : Row) : Bool :=
  key.all (fun k => same before k (o k) (n k))

/-- Some compared column `IS NOT` the same. -/
def differs (before compared : List Column) (o n : Row) : Bool :=
  compared.any (fun c => !same before c.name (o c.name) (n c.name))

/-- A row only in `after`. -/
def insertedDiff (key : List String) (compared : List Column) (n : Row) : RowDiff where
  key := key.map n
  kind := .inserted
  columns := compared.map (fun c => ⟨c.name, none, some (n c.name), none⟩)

/-- A row only in `before`. -/
def deletedDiff (key : List String) (compared : List Column) (o : Row) : RowDiff where
  key := key.map o
  kind := .deleted
  columns := compared.map (fun c => ⟨c.name, some (o c.name), none, none⟩)

/-- How far an updated vector moved. -/
def vectorDistance (E : Engine) (c : Column) : Value → Value → Option UInt64
  | .blob x, .blob y => if c.isVector then E.distance x y else none
  | _, _ => none

/-- A row in both; only the columns that differ are listed. -/
def updatedDiff (E : Engine) (key : List String) (compared : List Column) (o n : Row) :
    RowDiff where
  key := key.map n
  kind := .updated
  columns := compared.filterMap (fun c =>
    if valueEq (o c.name) (n c.name) then none
    else some ⟨c.name, some (o c.name), some (n c.name),
      vectorDistance E c (o c.name) (n c.name)⟩)

section Rows

variable (E : Engine) (b a : Table) (key : List String) (compared : List Column)

/-- `ORDER BY` the key. -/
def orderByKey {cs : List Column} (key : List String) (rows : List (RowOf cs)) :
    List (RowOf cs) :=
  rows.insertionSort (fun r r' => E.keyLe cs (key.map r.val) (key.map r'.val) = true)

def inserted : List RowDiff :=
  let only := a.rows.filter (fun n => !b.rows.any (fun o => joined b.columns key o.val n.val))
  (orderByKey E key only).map (fun n => insertedDiff key compared n.val)

def deleted : List RowDiff :=
  let only := b.rows.filter (fun o => !a.rows.any (fun n => joined b.columns key o.val n.val))
  (orderByKey E key only).map (fun o => deletedDiff key compared o.val)

/-- The rows of `before` that `JOIN … ON` the key pairs with `n`, where some compared column
differs. -/
def partners (n : RowOf a.columns) : List (RowOf b.columns) :=
  b.rows.filter (fun o => joined b.columns key o.val n.val &&
    differs b.columns compared o.val n.val)

def updated : List RowDiff :=
  let pairs := a.rows.flatMap (fun n => (partners b a key compared n).map (fun o => (n, o)))
  (pairs.insertionSort (fun p q =>
    E.keyLe a.columns (key.map p.1.val) (key.map q.1.val) = true)).map
      (fun p => updatedDiff E key compared p.2.val p.1.val)

end Rows

/-- The table of a schema, with the columns `pragma_table_info` lists. -/
def columns (c : Conn) (schema : Schema) (table : String) : Except Error Table :=
  match (c schema).lookup table with
  | some t => if t.columns.isEmpty then .error (.noTable table schema) else .ok t
  | none => .error (.noTable table schema)

/-- The comparison of the two versions, once their columns are known. -/
def diffTables (E : Engine) (name : String) (before after : Schema) (b a : Table) :
    Except Error TableDiff :=
  let namesAfter := a.columns.map (·.name)
  let namesBefore := b.columns.map (·.name)
  let compared := a.columns.filter (fun c => namesBefore.contains c.name)
  match a.key.find? (fun k => k != "rowid" && !namesBefore.contains k) with
  | some missing => .error (.missingKey missing after name before)
  | none =>
      -- with no column in common the first SELECT has an empty column list
      if compared.isEmpty then .error (.sqlite .nearFrom)
      else .ok {
        table := name
        key := a.key
        rows := inserted E b a a.key compared ++ updated E b a a.key compared ++
          deleted E b a a.key compared
        addedColumns := namesAfter.filter (fun n => !namesBefore.contains n)
        droppedColumns := namesBefore.filter (fun n => !namesAfter.contains n) }

/-- `compare::table`: compare `table` in schema `before` with `table` in schema `after`. -/
def table (E : Engine) (c : Conn) (table : String) (before after : Schema) :
    Except Error TableDiff := do
  let a ← columns c after table
  let b ← columns c before table
  diffTables E table before after b a

/-! ### The comparison key by key

Where columns compare by exact value, the differing rows with one key depend only on the rows the
two versions have under that key. -/

theorem joined_eq {before : List Column} (hx : Exact before) (key : List String) (o n : Row) :
    joined before key o n = decide (key.map o = key.map n) := by
  rw [Bool.eq_iff_iff]
  simp [joined, hx.same_eq]

theorem differs_eq {before compared : List Column} (hx : Exact before) (o n : Row) :
    differs before compared o n = decide (∃ c ∈ compared, o c.name ≠ n c.name) := by
  rw [Bool.eq_iff_iff]
  simp [differs, hx.same_eq]

section ByKey

variable {E : Engine} {b a : Table} {compared : List Column} {k : List Value}

theorem fiber_orderByKey (t : Table) (rows : List (RowOf t.columns)) :
    fiber t.keyVals k (orderByKey E t.key rows) = fiber t.keyVals k rows := by
  refine fiber_insertionSort _ fun r r' h => ?_
  change E.keyLe t.columns (t.keyVals r) (t.keyVals r') = true
  rw [h]
  exact E.keyLe_refl _ _

variable (hx : Exact b.columns) (hk : b.key = a.key)
include hx hk

theorem fiber_inserted :
    fiber RowDiff.key k (inserted E b a a.key compared) =
      if b.rowsAt k = [] then (a.rowsAt k).map (insertedDiff a.key compared) else [] := by
  rw [inserted, fiber_map (f := a.keyVals) (g := RowDiff.key) _ (fun _ _ => by rfl),
    fiber_orderByKey]
  have hany : ∀ n, a.keyVals n = k →
      (b.rows.any (fun o => joined b.columns a.key o.val n.val) = true ↔
        b.rowsAt k ≠ []) := by
    rintro n rfl
    simp [joined_eq hx, Table.rowsAt, fiber_eq_nil, Table.keyVals, hk]
  split_ifs with h
  · rw [fiber_filter_of_true, Table.rowsAt, map_map]
    · rfl
    · intro n _ hn
      simpa [h] using hany n hn
  · rw [fiber_filter_of_false, map_nil]
    intro n _ hn
    simpa [h] using hany n hn

theorem fiber_deleted :
    fiber RowDiff.key k (deleted E b a a.key compared) =
      if a.rowsAt k = [] then (b.rowsAt k).map (deletedDiff a.key compared) else [] := by
  rw [deleted, ← hk, fiber_map (f := b.keyVals) (g := RowDiff.key) _ (fun _ _ => by rfl),
    fiber_orderByKey]
  have hany : ∀ o, b.keyVals o = k →
      (a.rows.any (fun n => joined b.columns b.key o.val n.val) = true ↔
        a.rowsAt k ≠ []) := by
    rintro o rfl
    simp only [joined_eq hx, Table.rowsAt, Table.keyVals, hk, any_eq_true, decide_eq_true_eq,
      ne_eq, map_eq_nil_iff, fiber_eq_nil, not_forall, not_not, exists_prop]
    exact exists_congr fun n => and_congr_right fun _ => eq_comm
  split_ifs with h
  · rw [fiber_filter_of_true, Table.rowsAt, map_map]
    · rfl
    · intro o _ ho
      simpa [h] using hany o ho
  · rw [fiber_filter_of_false, map_nil]
    intro o _ ho
    simpa [h] using hany o ho

theorem map_partners {n : RowOf a.columns}
    (hn : a.keyVals n = k) :
    (partners b a a.key compared n).map (·.val) =
      (b.rowsAt k).filter (fun o => differs b.columns compared o n.val) := by
  subst hn
  rw [partners, Table.rowsAt, filter_map, ← fiber_filter, fiber, filter_filter]
  simp [joined_eq hx, Table.keyVals, hk]

theorem fiber_updated :
    fiber RowDiff.key k (updated E b a a.key compared) =
      (a.rowsAt k).flatMap (fun n =>
        ((b.rowsAt k).filter (fun o => differs b.columns compared o n)).map
          (fun o => updatedDiff E a.key compared o n)) := by
  have hsort : ∀ l : List (RowOf a.columns × RowOf b.columns),
      fiber (fun p => a.keyVals p.1) k (l.insertionSort (fun p q =>
        E.keyLe a.columns (a.key.map p.1.val) (a.key.map q.1.val) = true)) =
      fiber (fun p => a.keyVals p.1) k l := by
    refine fun l => fiber_insertionSort _ fun p q h => ?_
    change E.keyLe a.columns (a.keyVals p.1) (a.keyVals q.1) = true
    rw [h]
    exact E.keyLe_refl _ _
  rw [updated, fiber_map (f := fun p => a.keyVals p.1) (g := RowDiff.key) _
    (fun _ _ => by rfl), hsort, fiber_flatMap (f := a.keyVals) _ (by simp)]
  rw [map_flatMap, show a.rowsAt k = (fiber a.keyVals k a.rows).map (·.val) from rfl, flatMap_map]
  refine flatMap_congr fun n hn => ?_
  rw [← map_partners hx hk (mem_fiber.1 hn).2, map_map, map_map]
  rfl

end ByKey

theorem diffTables_eq (E : Engine) (name : String) (before after : Schema) {b a : Table}
    (hc : a.columns = b.columns) (hne : a.columns ≠ []) :
    diffTables E name before after b a = .ok {
      table := name
      key := a.key
      rows := inserted E b a a.key a.columns ++ updated E b a a.key a.columns ++
        deleted E b a a.key a.columns
      addedColumns := []
      droppedColumns := [] } := by
  have hnames : b.columns.map (·.name) = a.columns.map (·.name) := by rw [hc]
  have hkey : a.key.find? (fun k => k != "rowid" && !(a.columns.map (·.name)).contains k) =
      none := by
    rw [List.find?_eq_none]
    intro k hk
    rcases mem_keyColumns hk with rfl | hmem
    · simp
    · simp [hmem]
  have hcompared : a.columns.filter (fun c => (a.columns.map (·.name)).contains c.name) =
      a.columns := by
    rw [List.filter_eq_self]
    intro c hmem
    simpa using ⟨c, hmem, rfl⟩
  have hnew : ∀ l : List String, l.filter (fun n => !l.contains n) = [] := by
    intro l
    rw [List.filter_eq_nil_iff]
    intro n hn
    simp [hn]
  simp only [diffTables, hnames, hkey, hcompared, List.isEmpty_iff, hne, if_false, hnew]

end Compare

end SqlAnywhere
