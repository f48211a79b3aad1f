import Mathlib.Data.List.AList
import SqlAnywhere.Lib.Keyed

/-!
# Tables

The part of SQLite that `compare.rs` and `merge3.rs` run their statements on: values, the columns
`pragma_table_info` lists, tables as lists of rows, and databases as named tables.

* `RowOf columns` — a row of a table with these columns; it has no values off them
* `Table.delete`, `Table.update`, `Table.insert`, `Table.replace` — the four writing statements,
  with the constraints they check and the number of rows `sqlite3_changes` counts

The rowid of a table without a primary key is read under the name `rowid`, as in SQL.  What triggers
and foreign-key actions add to a statement is not part of it here.
-/

namespace SqlAnywhere

open List

/-- A value (`value.rs`).  A real is given by its bits. -/
inductive Value
  | null
  | integer (i : Int64)
  | real (bits : UInt64)
  | text (s : String)
  | blob (b : List UInt8)
  deriving DecidableEq, Repr

/-- The bits of an `f64` without its sign. -/
def magnitude (w : UInt64) : UInt64 := w &&& 0x7fffffffffffffff

/-- `==` on two `f64`, by their bits: equal bits or two zeros, and no NaN. -/
def realEq (x y : UInt64) : Bool :=
  decide (magnitude x ≤ 0x7ff0000000000000) && (x == y || (magnitude x == 0 && magnitude y == 0))

/-- `==` on two values. -/
def valueEq : Value → Value → Bool
  | .real x, .real y => realEq x y
  | x, y => x == y

/-- No NaN, which SQLite never stores, and no zero but the positive one. -/
def Value.plain : Value → Bool
  | .real x => decide (magnitude x ≤ 0x7ff0000000000000) && (magnitude x != 0 || x == 0)
  | _ => true

theorem valueEq_eq {x y : Value} (hx : x.plain = true) (hy : y.plain = true) :
    valueEq x y = decide (x = y) := by
  rw [Bool.eq_iff_iff, decide_eq_true_eq]
  cases x <;> cases y <;> simp_all [valueEq, Value.plain, realEq]
  grind

/-- The values of a row by column name. -/
abbrev Row := String → Value

def Plain (r : Row) : Prop := ∀ c, (r c).plain = true

/-- A column as `pragma_table_info` describes it: name, declared type and position in the primary
key (`0` outside it).  `same` is SQL's `IS` on its values, under the column's collation. -/
structure Column where
  name : String
  decl : String
  pk : ℕ
  same : Value → Value → Bool

/-- The primary key in key order, or `["rowid"]`. -/
def keyColumns (columns : List Column) : List String :=
  let key := (columns.filter (fun c => 0 < c.pk)).insertionSort (fun a b => a.pk ≤ b.pk)
  if key.isEmpty then ["rowid"] else key.map (·.name)

theorem mem_keyColumns {columns : List Column} {k : String} (hk : k ∈ keyColumns columns) :
    k = "rowid" ∨ k ∈ columns.map (·.name) := by
  simp only [keyColumns] at hk
  split_ifs at hk with h
  · exact Or.inl (mem_singleton.1 hk)
  · obtain ⟨c, hc, rfl⟩ := mem_map.1 hk
    exact Or.inr (mem_map_of_mem (mem_filter.1 ((mem_insertionSort _).1 hc)).1)

/-- The names under which a row has values: its columns, and `rowid` when that is the key. -/
def fieldNames (columns : List Column) : List String :=
  columns.map (·.name) ++ if keyColumns columns = ["rowid"] then ["rowid"] else []

/-- A row of a table with these columns. -/
@[ext] structure RowOf (columns : List Column) where
  val : Row
  off : ∀ c, c ∉ fieldNames columns → val c = .null

/-- The row of a table with these columns that has the values of `f`. -/
def RowOf.ofFn (columns : List Column) (f : Row) : RowOf columns where
  val c := if c ∈ fieldNames columns then f c else .null
  off _ hc := if_neg hc

theorem RowOf.ofFn_val {columns : List Column} {f : Row}
    (hf : ∀ c, c ∉ fieldNames columns → f c = .null) : (RowOf.ofFn columns f).val = f := by
  funext c
  by_cases hc : c ∈ fieldNames columns
  · exact if_pos hc
  · exact (if_neg hc).trans (hf c hc).symm

/-- `x IS y` for the column named `c`; a rowid has no collation. -/
def same (columns : List Column) (c : String) (x y : Value) : Bool :=
  match columns.find? (fun col => col.name == c) with
  | some col => col.same x y
  | none => x == y

/-- `k1 IS ?1 AND k2 IS ?2 …` -/
def matchesKey (columns : List Column) (key : List String) (vals : List Value) (r : Row) : Bool :=
  (key.zip vals).all (fun p => same columns p.1 (r p.1) p.2)

/-- Every column compares by exact value. -/
def Exact (columns : List Column) : Prop :=
  ∀ col ∈ columns, ∀ x y, col.same x y = decide (x = y)

theorem Exact.same_eq {columns : List Column} (h : Exact columns) (c : String) (x y : Value) :
    same columns c x y = decide (x = y) := by
  unfold same
  split
  · rename_i col hcol
    exact h col (mem_of_find?_eq_some hcol) x y
  · rfl

theorem Exact.matchesKey_eq {columns : List Column} (h : Exact columns) {key : List String}
    {vals : List Value} (hlen : vals.length = key.length) (r : Row) :
    matchesKey columns key vals r = decide (key.map r = vals) := by
  induction key generalizing vals with
  | nil => simp [matchesKey, length_eq_zero_iff.1 hlen]
  | cons c key ih =>
    cases vals with
    | nil => simp at hlen
    | cons v vals =>
      have htail : matchesKey columns key vals r = decide (key.map r = vals) :=
        ih (by simpa using hlen)
      simp only [matchesKey, h.same_eq] at htail
      simp [matchesKey, h.same_eq, htail]

/-- The `type` column of `pragma_table_list`. -/
inductive TableType
  | table
  | view
  | virtual
  | shadow
  deriving DecidableEq, Repr

/-- A table of one database: its columns, its UNIQUE constraints beside the primary key, what its
NOT NULL and CHECK constraints accept, and its rows. -/
structure Table where
  type : TableType
  columns : List Column
  unique : List (List String)
  check : Row → Bool
  rows : List (RowOf columns)

/-- A database file: its tables by name. -/
abbrev Db := AList (fun _ : String => Table)

/-- What a statement can fail with. -/
inductive SqlError
  | noSuchTable (table : String)
  | unique
  | check
  | nearFrom
  | foreignKey
  | cannotOpen (file : String)
  deriving DecidableEq, Repr

namespace Table

variable (t : Table)

/-- The key columns of `t`. -/
def key : List String := keyColumns t.columns

/-- The key of a row. -/
def keyVals (r : RowOf t.columns) : List Value := t.key.map r.val

/-- The rows with this key. -/
def rowsAt (k : List Value) : List Row := (Keyed.fiber t.keyVals k t.rows).map (·.val)

/-- The row with this key, if the table has one. -/
def row? (k : List Value) : Option Row := (Keyed.get t.keyVals k t.rows).map (·.val)

variable {t}

theorem row?_eq_some {k : List Value} {x : Row} (h : t.row? k = some x) :
    ∃ ρ ∈ t.rows, ρ.val = x ∧ t.keyVals ρ = k := by
  obtain ⟨ρ, hρ, rfl⟩ := Option.map_eq_some_iff.1 h
  exact ⟨ρ, (Keyed.get_mem hρ).1, rfl, (Keyed.get_mem hρ).2⟩

theorem rowsAt_of_distinct (h : Keyed.Distinct t.keyVals t.rows) (k : List Value) :
    t.rowsAt k = (t.row? k).toList := by
  rw [rowsAt, row?, h.fiber_eq]
  cases Keyed.get t.keyVals k t.rows <;> rfl

/-- A row is determined by its columns and, where that is the key, its rowid. -/
theorem eq_off_columns {t' : Table} (hc : t'.columns = t.columns) {ρ : RowOf t.columns}
    {ρ' : RowOf t'.columns} (hk : t.keyVals ρ = t'.keyVals ρ') {c : String}
    (hnot : c ∉ t.columns.map (·.name)) : ρ.val c = ρ'.val c := by
  have hkey : t'.key = t.key := by rw [key, key, hc]
  by_cases hf : c ∈ fieldNames t.columns
  swap
  · rw [ρ.off c hf, ρ'.off c (hc ▸ hf)]
  rw [fieldNames, mem_append] at hf
  rcases hf with hf | hf
  · exact absurd hf hnot
  split_ifs at hf with hrowid
  · have hc' : c ∈ t.key := by rw [key, hrowid]; exact hf
    rw [keyVals, keyVals, hkey] at hk
    exact map_inj_left.1 hk c hc'
  · simp at hf

variable (t)

/-- Two rows that a UNIQUE constraint on the columns `cs` keeps apart.  NULLs are distinct. -/
def clash (cs : List String) (r r' : Row) : Bool :=
  cs.all (fun c => r c != .null && r' c != .null && same t.columns c (r c) (r' c))

/-- The primary key or a UNIQUE constraint keeps the two rows apart. -/
def violates (r r' : Row) : Bool := (t.key :: t.unique).any (fun cs => t.clash cs r r')

/-! ### Statements -/

/-- `DELETE FROM t WHERE p`: the table after it and the rows changed. -/
def delete (p : Row → Bool) : Table × ℕ :=
  ({ t with rows := t.rows.filter (fun r => !p r.val) },
    (t.rows.filter (fun r => p r.val)).length)

/-- One row of an `INSERT`. -/
def insertRow (f : Row) : Except SqlError Table :=
  let r := RowOf.ofFn t.columns f
  if t.rows.any (fun r' => t.violates r.val r'.val) then .error .unique
  else if t.check r.val then .ok { t with rows := t.rows ++ [r] }
  else .error .check

/-- One row of an `INSERT OR REPLACE`: the rows it collides with are removed first, whichever
constraint they collide on. -/
def replaceRow (f : Row) : Except SqlError Table :=
  let r := RowOf.ofFn t.columns f
  if t.check r.val then
    .ok { t with rows := t.rows.filter (fun r' => !t.violates r.val r'.val) ++ [r] }
  else .error .check

/-- `INSERT INTO t SELECT …` of the rows `rs`. -/
def insert (rs : List Row) : Except SqlError (Table × ℕ) := do
  let t' ← rs.foldlM insertRow t
  return (t', rs.length)

/-- `INSERT OR REPLACE INTO t SELECT …` of the rows `rs`.  `sqlite3_changes` leaves out the rows
removed to make room. -/
def replace (rs : List Row) : Except SqlError (Table × ℕ) := do
  let t' ← rs.foldlM replaceRow t
  return (t', rs.length)

/-- The rows of an `UPDATE` from the first one not yet visited on; `done` are the visited ones. -/
def updateRows (p : Row → Bool) (f : Row → Row) : (done rest : List (RowOf t.columns)) →
    Except SqlError (List (RowOf t.columns))
  | done, [] => .ok done
  | done, r :: rest =>
      let r' := RowOf.ofFn t.columns (f r.val)
      if !p r.val then updateRows p f (done ++ [r]) rest
      else if (done ++ rest).any (fun s => t.violates r'.val s.val) then .error .unique
      else if t.check r'.val then updateRows p f (done ++ [r']) rest
      else .error .check

/-- `UPDATE t SET … WHERE p`, where the assignments make `f r` of a row `r`. -/
def update (p : Row → Bool) (f : Row → Row) : Except SqlError (Table × ℕ) := do
  let rows ← t.updateRows p f [] t.rows
  return ({ t with rows := rows }, (t.rows.filter (fun r => p r.val)).length)

/-! ### What the statements do -/

/-- The table with other rows. -/
def withRows (rows : List (RowOf t.columns)) : Table := { t with rows := rows }

/-- No two rows collide on the primary key or a UNIQUE constraint. -/
def Consistent : Prop := t.rows.Pairwise (fun x y => t.violates x.val y.val = false)

variable {t} {t' : Table} {n : ℕ} {f : Row} {p : Row → Bool} {g : Row → Row}

theorem rowsAt_withRows (rows : List (RowOf t.columns)) (k : List Value) :
    (t.withRows rows).rowsAt k = (Keyed.fiber t.keyVals k rows).map (·.val) := rfl

variable (hx : Exact t.columns)
include hx

theorem clash_comm (cs : List String) (x y : Row) :
    t.clash cs x y = t.clash cs y x := by
  simp only [clash, hx.same_eq]
  congr 1
  funext c
  rw [Bool.and_comm (x c != .null), decide_eq_decide.2 eq_comm]

theorem violates_comm (x y : Row) : t.violates x y = t.violates y x := by
  simp only [violates, clash_comm hx _ x y]

/-- Rows with the same key, none of it NULL, collide. -/
theorem violates_of_key {x y : Row} (hk : t.key.map x = t.key.map y)
    (hnull : Value.null ∉ t.key.map x) : t.violates x y = true := by
  have hclash : t.clash t.key x y = true := by
    rw [clash, all_eq_true]
    intro c hc
    have hxy : x c = y c := map_inj_left.1 hk c hc
    have hne : x c ≠ .null := fun h => hnull (h ▸ mem_map_of_mem hc)
    simp [hx.same_eq, ← hxy, hne]
  simp [violates, hclash]

omit hx

/-- `insert` and `replace` count the rows they are given. -/
theorem exists_of_one {write : Table → Row → Except SqlError Table} {rs : List Row}
    (h : (do let t' ← rs.foldlM write t; return (t', rs.length)) = Except.ok (t', 1)) :
    ∃ f, rs = [f] := by
  cases hr : rs.foldlM write t with
  | error e => rw [hr] at h; cases h
  | ok t₁ =>
    rw [hr] at h
    exact length_eq_one_iff.1 (congrArg Prod.snd (Except.ok.inj h))

theorem insert_singleton_ok (h : t.insert [f] = .ok (t', n)) :
    (∀ ρ ∈ t.rows, t.violates (RowOf.ofFn t.columns f).val ρ.val = false) ∧
      t' = t.withRows (t.rows ++ [RowOf.ofFn t.columns f]) := by
  simp only [insert, foldlM_cons, foldlM_nil, insertRow] at h
  split_ifs at h with hany hcheck
  · cases h
  · simp only [any_eq_true, not_exists, not_and, Bool.not_eq_true] at hany
    cases h
    exact ⟨hany, rfl⟩
  · cases h

theorem replace_singleton_ok (h : t.replace [f] = .ok (t', n)) :
    t' = t.withRows (t.rows.filter (fun ρ => !t.violates (RowOf.ofFn t.columns f).val ρ.val) ++
      [RowOf.ofFn t.columns f]) := by
  simp only [replace, foldlM_cons, foldlM_nil, replaceRow] at h
  split_ifs at h with hcheck
  · cases h
    rfl
  · cases h

theorem updateRows_ok {done rest rows : List (RowOf t.columns)}
    (h : t.updateRows p g done rest = .ok rows) :
    rows = done ++ rest.map (fun ρ => if p ρ.val then RowOf.ofFn t.columns (g ρ.val) else ρ) := by
  induction rest generalizing done with
  | nil => cases h; simp
  | cons ρ rest ih =>
    simp only [updateRows] at h
    split_ifs at h with hp hany hcheck
    · rw [ih h]
      simp [show p ρ.val = false by simpa using hp]
    · rw [ih h]
      simp [show p ρ.val = true by simpa using hp]

theorem updateRows_pairwise (hx : Exact t.columns)
    {done rest rows : List (RowOf t.columns)} (h : t.updateRows p g done rest = .ok rows)
    (hc : (done ++ rest).Pairwise (fun x y => t.violates x.val y.val = false)) :
    rows.Pairwise (fun x y => t.violates x.val y.val = false) := by
  have hsymm : ∀ {x y : RowOf t.columns}, t.violates x.val y.val = false →
      t.violates y.val x.val = false := fun hxy => by rwa [violates_comm hx]
  induction rest generalizing done with
  | nil => cases h; simpa using hc
  | cons ρ rest ih =>
    simp only [updateRows] at h
    split_ifs at h with hp hany hcheck
    · exact ih h (by simpa using hc)
    refine ih h ?_
    rw [append_assoc, singleton_append, pairwise_middle hsymm, pairwise_cons]
    rw [pairwise_middle hsymm, pairwise_cons] at hc
    refine ⟨fun s hs => ?_, hc.2⟩
    simp only [any_eq_true, not_exists, not_and, Bool.not_eq_true] at hany
    exact hany s hs

theorem update_ok (h : t.update p g = .ok (t', n)) :
    ∃ rows, t.updateRows p g [] t.rows = .ok rows ∧ t' = t.withRows rows ∧
      rows = t.rows.map (fun ρ => if p ρ.val then RowOf.ofFn t.columns (g ρ.val) else ρ) := by
  rw [update] at h
  cases hu : t.updateRows p g [] t.rows with
  | error e => rw [hu] at h; cases h
  | ok rows =>
    rw [hu] at h
    cases h
    exact ⟨rows, rfl, rfl, by simpa using updateRows_ok hu⟩

end Table

end SqlAnywhere
