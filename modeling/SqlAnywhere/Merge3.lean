import Mathlib.Algebra.Ring.Nat
import SqlAnywhere.Compare

/-!
# Three-way merge of attached databases (`merge3.rs`)

`Merge3.merge` attaches a base and a branch to the live database, plans the merge table by table
from the two comparisons with the base, and applies the plan in one transaction.

* `Merge3.plan` — what a merge would do: per table the changes that apply and the conflicts
* `threeWay` — sorts the branch's changes to one table, given what the live side did
* `Apply` — the statements that write one row from the branch into `main`
* `Merge3.merge` — the whole operation, with the database it leaves
-/

namespace SqlAnywhere

/-- What to do with rows both sides changed differently. -/
inductive OnConflict
  | abort
  | keepMain
  | takeBranch
  deriving DecidableEq, Repr

/-- A three-way merge of `branch` into the connection's database, from `base`. -/
structure Merge3 where
  base : String
  branch : String
  skip : List String
  onConflict : OnConflict
  deriving DecidableEq, Repr

/-- A row both sides changed differently since the base. -/
structure Conflict where
  branch : RowDiff
  main : RowDiff
  deriving DecidableEq, Repr

structure TablePlan where
  table : String
  key : List String
  changes : List RowDiff
  conflicts : List Conflict
  deriving DecidableEq, Repr

/-- What a branch changed, table by table, and what it collides with. -/
structure Plan where
  tables : List TablePlan
  schemaChanges : List String
  deriving DecidableEq, Repr

/-- What a merge did. -/
inductive Merged
  | applied (plan : Plan)
  | refused (plan : Plan)
  deriving DecidableEq, Repr

namespace Plan

/-- Rows that apply cleanly. -/
def changes (p : Plan) : ℕ := (p.tables.map (·.changes.length)).sum

/-- Rows both sides changed differently. -/
def conflicts (p : Plan) : ℕ := (p.tables.map (·.conflicts.length)).sum

/-- The conflicts of a plan, each with its table. -/
def reported (p : Plan) : List (String × Conflict) :=
  p.tables.flatMap (fun t => t.conflicts.map (fun c => (t.table, c)))

theorem length_reported (p : Plan) : p.reported.length = p.conflicts := by
  simp [reported, conflicts, List.length_flatMap]

theorem changes_eq_zero {p : Plan} : p.changes = 0 ↔ ∀ tp ∈ p.tables, tp.changes = [] := by
  simp [changes, List.sum_eq_zero_iff_forall_eq_nat]

def isEmpty (p : Plan) : Bool := p.changes == 0 && p.conflicts == 0 && p.schemaChanges.isEmpty

end Plan

/-! ### Sorting the branch's changes -/

/-- A key as `key_of` compares it.  The debug string of a key is equal exactly when the keys are,
so the key itself stands for it. -/
def keyOf (key : List Value) : List Value := key

/-- The columns of a row with their new values. -/
def afters (row : RowDiff) : List (String × Option Value) :=
  row.columns.map (fun c => (c.column, c.after))

/-- What becomes of one change of the branch. -/
inductive Verdict
  | change (row : RowDiff)
  | conflict (c : Conflict)
  | agreed

/-- `==` on two values that may be missing. -/
def optionEq : Option Value → Option Value → Bool
  | some x, some y => valueEq x y
  | x, y => x == y

/-- `afters(row) == afters(main)` -/
def sameAfters (row main : RowDiff) : Bool :=
  (afters row).isEqv (afters main) (fun x y => x.1 == y.1 && optionEq x.2 y.2)

/-- A column both sides wrote, with different values. -/
def clashes (main : RowDiff) (c : ColumnDiff) : Bool :=
  match main.column c.column with
  | some theirs => !optionEq theirs.after c.after
  | none => false

/-- The columns of the branch's update that the live side did not write. -/
def ownColumns (row main : RowDiff) : List ColumnDiff :=
  row.columns.filter (fun c => (main.column c.column).isNone)

/-- The body of the loop of `three_way`: one change of the branch, and what the live side did to
the row with that key. -/
def judge (row : RowDiff) : Option RowDiff → Verdict
  | none => .change row
  | some main =>
      match row.kind, main.kind with
      | .deleted, .deleted => .agreed
      | .inserted, .inserted =>
          if sameAfters row main then .agreed else .conflict ⟨row, main⟩
      | .updated, .updated =>
          if row.columns.any (clashes main) then .conflict ⟨row, main⟩
          else if (ownColumns row main).isEmpty then .agreed
          else .change { row with columns := ownColumns row main }
      | _, _ => .conflict ⟨row, main⟩

def Verdict.change? : Verdict → Option RowDiff
  | .change row => some row
  | _ => none

def Verdict.conflict? : Verdict → Option Conflict
  | .conflict c => some c
  | _ => none

/-- The map `by_key`: a later row with the same key replaces an earlier one. -/
def byKey (theirs : TableDiff) (key : List Value) : Option RowDiff :=
  theirs.rows.reverse.find? (fun row => keyOf row.key = keyOf key)

/-- Sort the branch's changes to one table into those that apply and those that collide. -/
def threeWay (ours theirs : TableDiff) : TablePlan where
  table := ours.table
  key := ours.key
  changes := ours.rows.filterMap (fun row => (judge row (byKey theirs row.key)).change?)
  conflicts := ours.rows.filterMap (fun row => (judge row (byKey theirs row.key)).conflict?)

/-! ### Writing rows -/

/-- Writes one table's rows from the attached branch into `main`. -/
structure Apply where
  table : String
  key : List String
  branch : Table

namespace Apply

variable (a : Apply) (E : Engine)

/-- Every column, and the rowid when that is the key. -/
def allColumns : List String :=
  let cols := a.branch.columns.map (·.name)
  if a.key = ["rowid"] then "rowid" :: cols else cols

/-- `SELECT {all_columns} FROM branch.t WHERE {matches}`; columns that are not selected get their
default. -/
def source (key : List Value) : List Row :=
  (a.branch.rows.filter (fun r => matchesKey a.branch.columns a.key key r.val)).map
    (fun r c => if c ∈ a.allColumns then r.val c else .null)

/-- `SET (cols) = (SELECT cols FROM branch.t WHERE {matches})`: without a row there, NULLs. -/
def assign (row : RowDiff) (r : Row) : Row := fun c =>
  if c ∈ row.columns.map (·.column) then
    match a.branch.rows.find? (fun s => matchesKey a.branch.columns a.key row.key s.val) with
    | some s => s.val c
    | none => .null
  else r c

/-- The statement that writes a change. -/
def statement (row : RowDiff) (t : Table) : Except SqlError (Table × ℕ) :=
  match row.kind with
  | .deleted => .ok (t.delete (matchesKey t.columns a.key row.key))
  | .inserted => t.insert (a.source row.key)
  | .updated => t.update (matchesKey t.columns a.key row.key) (a.assign row)

/-- The statement that makes the live row what the branch has. -/
def takeStatement (branch : RowDiff) (t : Table) : Except SqlError (Table × ℕ) :=
  if branch.kind = .deleted then a.statement branch t else t.replace (a.source branch.key)

/-- Run a statement on a table; it must change exactly one row. -/
def runTable (stmt : Table → Except SqlError (Table × ℕ)) (key : List Value) (t : Table) :
    Except Error Table :=
  match stmt t with
  | .error e => .error (.sqlite e)
  | .ok (t', changed) =>
      if changed ≠ 1 then .error (.notOneRow key a.table changed) else .ok t'

def rowTable (t : Table) (row : RowDiff) : Except Error Table :=
  a.runTable (a.statement row) row.key t

/-- Make the live row what the branch has. -/
def takeTable (t : Table) (c : Conflict) : Except Error Table :=
  a.runTable (a.takeStatement c.branch) c.branch.key t

/-- Do something to the live table, and what triggers and foreign-key actions do then. -/
def onMain {δ : Type} (replaces : δ → Bool) (step : Table → δ → Except Error Table) (main : Db)
    (d : δ) : Except Error Db :=
  match main.lookup a.table with
  | none => .error (.sqlite (.noSuchTable a.table))
  | some t => do
      let t' ← step t d
      return E.react (replaces d) main (main.insert a.table t')

def row (main : Db) (row : RowDiff) : Except Error Db :=
  a.onMain E (fun _ => false) a.rowTable main row

def take (main : Db) (c : Conflict) : Except Error Db :=
  a.onMain E (fun c => c.branch.kind ≠ .deleted) a.takeTable main c

end Apply

/-- Changes in the order they are written: deletes, updates, inserts. -/
def inKindOrder (changes : List RowDiff) : List RowDiff :=
  [RowKind.deleted, .updated, .inserted].flatMap (fun kind => changes.filter (·.kind = kind))

namespace Merge3

variable (m : Merge3) (E : Engine)

def new (base branch : String) : Merge3 := ⟨base, branch, [], .abort⟩

/-- `s.eq_ignore_ascii_case(name)` -/
def eqIgnoreAsciiCase (s name : String) : Bool :=
  s.toList.map Char.toLower = name.toList.map Char.toLower

/-- `name LIKE '{pre}%'`, which ignores ASCII case. -/
def likeStart (pre name : String) : Bool :=
  (pre.toList.map Char.toLower).isPrefixOf (name.toList.map Char.toLower)

/-- `name LIKE '%{part}%'` -/
def likeInside (part name : String) : Bool :=
  (name.toList.map Char.toLower).tails.any (part.toList.map Char.toLower).isPrefixOf

/-- A table of that name takes part in a merge. -/
def takesPart (name : String) : Bool :=
  !likeStart "sqlite_" name && !likeStart "sqlanywhere_" name && !likeInside "__crsql_" name &&
    !m.skip.any (fun s => eqIgnoreAsciiCase s name)

/-- The tables of a database that take part, by name. -/
def tables (db : Db) : List String :=
  (db.keys.filter (fun name =>
    (db.lookup name).any (·.type = .table) && m.takesPart name)).insertionSort (· ≤ ·)

/-- Columns that only one side of a comparison has. -/
def columnChanges (t side : String) (diff : TableDiff) : List String :=
  diff.addedColumns.map (fun c => s!"{t}: column {c} added on {side}") ++
    diff.droppedColumns.map (fun c => s!"{t}: column {c} dropped on {side}")

/-- The plan for one table of the base: schema changes, and the rows if there are none. -/
def planTable (c : Conn) (t : String) : Except Error (List String × Option TablePlan) :=
  if t ∉ m.tables (c .branch) then .ok ([s!"{t}: dropped on the branch"], none)
  else if t ∉ m.tables (c .main) then .ok ([s!"{t}: dropped on main"], none)
  else do
    let ours ← Compare.table E c t .base .branch
    let theirs ← Compare.table E c t .base .main
    let changed := columnChanges t "branch" ours ++ columnChanges t "main" theirs
    return (changed,
      if !changed.isEmpty || ours.isEmpty then none else some (threeWay ours theirs))

/-- What a merge would do now. -/
def plan (c : Conn) : Except Error Plan := do
  let base := m.tables (c .base)
  let created := (m.tables (c .branch)).filter (· ∉ base)
  let planned ← base.mapM (m.planTable E c)
  return {
    tables := planned.filterMap (·.2)
    schemaChanges := created.map (fun t => s!"{t}: created on the branch") ++
      planned.flatMap (·.1) }

/-- Write one table's part of the plan. -/
def applyTable (c : Conn) (main : Db) (table : TablePlan) : Except Error Db :=
  match (c .branch).lookup table.table with
  | none => .error (.sqlite (.noSuchTable table.table))
  | some branch => do
      let apply : Apply := ⟨table.table, table.key, branch⟩
      let main ← (inKindOrder table.changes).foldlM (apply.row E) main
      if m.onConflict = .takeBranch then table.conflicts.foldlM (apply.take E) main
      else return main

/-- The merge inside its transaction: the outcome and the live database. -/
def mergeIn (c : Conn) : Except Error (Merged × Db) := do
  let plan ← m.plan E c
  if !plan.schemaChanges.isEmpty || (0 < plan.conflicts && m.onConflict = .abort) then
    return (.refused plan, c .main)
  else
    let main ← plan.tables.foldlM (m.applyTable E c) (c .main)
    return (.applied plan, main)

/-- The connection after both databases are attached. -/
def attach (base branch main : Db) : Conn
  | .main => main
  | .base => base
  | .branch => branch

/-- `Merge3::merge`: the outcome, and the live database after the commit or the rollback. -/
def merge (files : String → Option Db) (main : Db) : Except Error Merged × Db :=
  match files m.base with
  | none => (.error (.sqlite (.cannotOpen m.base)), main)
  | some base =>
      match files m.branch with
      | none => (.error (.sqlite (.cannotOpen m.branch)), main)
      | some branch =>
          match m.mergeIn E (attach base branch main) with
          | .ok (.applied plan, main') =>
              if E.foreignKeys main' then (.ok (.applied plan), main')
              else (.error (.sqlite .foreignKey), main)
          | .ok (.refused plan, _) => (.ok (.refused plan), main)
          | .error e => (.error e, main)

end Merge3

end SqlAnywhere
