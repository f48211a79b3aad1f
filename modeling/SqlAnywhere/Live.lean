import Mathlib.Algebra.Ring.Nat
import SqlAnywhere.Lib.Run
import SqlAnywhere.Live.Diff

/-!
# Live queries

`live.rs`: the version table and the triggers that `track` gives a table, the counters a live query
compares to decide it is stale, and the steps of `LiveQuery::new` and `LiveQuery::refresh`, among
the statements of their own connection and the commits of other connections.

* `Stmt.exec` — a statement on a database file: the row writes, what `track` and `untrack`
  execute, and any other schema change
* `counters`, `resolveWatch` — the reads of a live query
* `Sys.step` — one step of the whole system

The query itself is a parameter (`Query`): what `EXPLAIN` lists for it and what it returns.  The
version table is written by `track`, `untrack` and the triggers only.
-/

namespace SqlAnywhere.Live

/-- A name as SQLite compares names: without ASCII case. -/
def nocase (name : String) : List Char := name.toList.map Char.toLower

theorem nocase_append (s s' : String) : nocase (s ++ s') = nocase s ++ nocase s' := by
  rw [nocase, String.toList_append, List.map_append]
  rfl

/-- The version table, `TRACKED`. -/
def trackedTable : String := "sqlanywhere_live_tables"

/-- The events of `TRIGGERS`. -/
inductive Event
  | insert
  | update
  | delete
  deriving DecidableEq, Repr

def Event.suffix : Event → String
  | .insert => "ins"
  | .update => "upd"
  | .delete => "del"

def triggers : List Event := [.insert, .update, .delete]

/-- The name `track` gives a trigger. -/
def trigger (table suffix : String) : String := s!"sqlanywhere_live_{table}_{suffix}"

/-- A trigger that `track(table)` made for `event`, now on the table `on` (renaming a table takes
its triggers along): it adds one to the version of `table`. -/
structure LiveTrigger where
  table : String
  event : Event
  on : String
  deriving DecidableEq, Repr

def LiveTrigger.name (g : LiveTrigger) : List Char := nocase (trigger g.table g.event.suffix)

/-- What the live queries read of `sqlite_schema`: the root pages with their tables, the tables,
the triggers of `track`, and the texts of all the rest.  Names do not repeat. -/
structure Schema where
  roots : List (ℤ × String)
  tables : List String
  triggers : List LiveTrigger
  sql : List String
  nodup : (triggers.map LiveTrigger.name).Nodup

/-- A database file: contents by table name, and the rows of the version table if there is one. -/
structure Db where
  schemaVersion : ℕ
  schema : Schema
  rows : List Char → List (List Value)
  tracked : Option (List (String × ℕ))

/-! ### Statements -/

/-- `UPDATE TRACKED SET version = version + 1 WHERE tbl = table`. -/
def bump (table : String) (rows : List (String × ℕ)) : List (String × ℕ) :=
  rows.map (fun r => if nocase r.1 = nocase table then (r.1, r.2 + 1) else r)

/-- The triggers that a write to `on` fires, except those that are running. -/
def firing (ts active : List LiveTrigger) (on : String) (event : Event) : List LiveTrigger :=
  ts.filter (fun g =>
    decide (nocase g.on = nocase on) && decide (g.event = event) && !active.contains g)

/-- Run the triggers of a write to `on`.  Their update is a write to the version table, which may
have triggers itself; a trigger that is running does not fire again, so the depth is bounded. -/
def fire (ts : List LiveTrigger) :
    ℕ → List LiveTrigger → String → Event → List (String × ℕ) → List (String × ℕ)
  | 0, _, _, _, rows => rows
  | depth + 1, active, on, event, rows =>
      (firing ts active on event).foldl (fun rows g =>
        if rows.any (fun r => decide (nocase r.1 = nocase g.table)) then
          fire ts depth (g :: active) trackedTable .update (bump g.table rows)
        else rows) rows

/-- The version table after the triggers of a write to `on`. -/
def Schema.fired (s : Schema) (on : String) (event : Event) (rows : List (String × ℕ)) :
    List (String × ℕ) :=
  fire s.triggers (s.triggers.length + 1) [] on event rows

/-- How many rows the triggers wrote. -/
def bumps (before after : List (String × ℕ)) : ℕ :=
  (after.map (·.2)).sum - (before.map (·.2)).sum

/-- An SQL statement: a row written to a table of the application (which then has these rows), the
statements of `track` and `untrack`, and any other change of the schema. -/
inductive Stmt
  | write (table : String) (event : Event) (rows : List (List Value))
  | createTracked (pages : List ℤ)
  | insertTracked (table : String)
  | createTrigger (table : String) (event : Event)
  | dropTrigger (table : String) (event : Event)
  | deleteTracked (table : String)
  | alter (db : Db)

def Schema.hasTable (s : Schema) (table : String) : Bool :=
  s.tables.any (fun t => decide (nocase t = nocase table))

def Schema.hasTrigger (s : Schema) (table : String) (event : Event) : Bool :=
  s.triggers.any (fun g => decide (g.name = nocase (trigger table event.suffix)))

/-- The schema with a trigger of `track`, which it does not have yet. -/
def Schema.addTrigger (s : Schema) (table : String) (event : Event)
    (h : s.hasTrigger table event = false) : Schema where
  roots := s.roots
  tables := s.tables
  triggers := s.triggers ++ [⟨table, event, table⟩]
  sql := s.sql
  nodup := by
    rw [List.map_append, List.nodup_append]
    refine ⟨s.nodup, List.nodup_singleton _, ?_⟩
    intro n hn n' hn' heq
    obtain ⟨g, hg, rfl⟩ := List.mem_map.1 hn
    rw [List.map_singleton, List.mem_singleton] at hn'
    rw [Schema.hasTrigger, List.any_eq_false] at h
    exact h g hg (decide_eq_true (heq.trans hn'))

def Schema.dropTrigger (s : Schema) (table : String) (event : Event) : Schema where
  roots := s.roots
  tables := s.tables
  triggers := s.triggers.filter (fun g => !decide (g.name = nocase (trigger table event.suffix)))
  sql := s.sql
  nodup := s.nodup.sublist (List.filter_sublist.map _)

/-- Whether a statement writes nothing at all, not even to take the write lock: `IF NOT EXISTS`
of what exists and `IF EXISTS` of what does not. -/
def Stmt.idle (db : Db) : Stmt → Bool
  | .createTracked _ => db.tracked.isSome
  | .createTrigger table event => db.schema.hasTable table && db.schema.hasTrigger table event
  | .dropTrigger table event => !db.schema.hasTrigger table event
  | _ => false

/-- The file after a statement and the number of rows it wrote, or `none` if it fails. -/
def Stmt.exec (db : Db) : Stmt → Option (Db × ℕ)
  | .write table event rows =>
      if nocase table = nocase trackedTable then none
      else
        let rows' := Function.update db.rows (nocase table) rows
        match db.tracked with
        | none =>
            -- the update of a trigger fails without its table, and the write with it
            if (firing db.schema.triggers [] table event).isEmpty then
              some ({ db with rows := rows' }, 1)
            else none
        | some trs =>
            let trs' := db.schema.fired table event trs
            some ({ db with rows := rows', tracked := some trs' }, 1 + bumps trs trs')
  | .createTracked pages =>
      match db.tracked with
      | some _ => some (db, 0)
      | none =>
          some ({ db with
            schemaVersion := db.schemaVersion + 1
            schema := { db.schema with
              roots := db.schema.roots ++ pages.map (fun p => (p, trackedTable))
              tables := db.schema.tables ++ [trackedTable] }
            tracked := some [] }, 0)
  | .insertTracked table =>
      db.tracked.bind (fun trs =>
        match db.schema.tables.find? (fun t => decide (nocase t = nocase table)) with
        | none => some (db, 0)
        | some name =>
            if trs.any (fun r => decide (nocase r.1 = nocase name)) then some (db, 0)
            else
              let trs' := db.schema.fired trackedTable .insert (trs ++ [(name, 0)])
              some ({ db with tracked := some trs' }, 1 + bumps trs trs'))
  | .createTrigger table event =>
      if db.schema.hasTable table = false then none
      else if h : db.schema.hasTrigger table event = false then
        some ({ db with
          schemaVersion := db.schemaVersion + 1
          schema := db.schema.addTrigger table event h }, 0)
      else some (db, 0)
  | .dropTrigger table event =>
      if db.schema.hasTrigger table event then
        some ({ db with
          schemaVersion := db.schemaVersion + 1
          schema := db.schema.dropTrigger table event }, 0)
      else some (db, 0)
  | .deleteTracked table =>
      db.tracked.bind (fun trs =>
        let rest := trs.filter (fun r => !decide (nocase r.1 = nocase table))
        if rest.length = trs.length then some (db, 0)
        else
          let trs' := db.schema.fired trackedTable .delete rest
          some ({ db with tracked := some trs' }, 1 + bumps rest trs'))
  | .alter db' => if db.schemaVersion < db'.schemaVersion then some (db', 0) else none

/-- The file after a statement. -/
def Stmt.after (db : Db) (st : Stmt) : Option Db := (st.exec db).map (·.1)

/-- What `track` executes, between `BEGIN` and `COMMIT`. -/
def track (table : String) (pages : List ℤ) : List Stmt :=
  [.createTracked pages, .insertTracked table] ++ triggers.map (Stmt.createTrigger table)

/-- What `untrack` executes, between `BEGIN` and `COMMIT`. -/
def untrack (table : String) (pages : List ℤ) : List Stmt :=
  triggers.map (Stmt.dropTrigger table) ++ [.createTracked pages, .deleteTracked table]

/-! ### What a live query reads -/

/-- An instruction of `EXPLAIN`: opcode, root page (`P2`), schema (`P3`) and flags (`P5`). -/
structure Op where
  opcode : String
  p2 : ℤ
  p3 : ℤ
  p5 : ℕ
  deriving DecidableEq, Repr

/-- The instruction opens a table or an index to read. -/
def Op.opens (op : Op) : Bool := op.opcode == "OpenRead" || op.opcode == "ReopenIdx"

/-- It opens one that is not in the schema `main`, or one whose root page is in a register. -/
def Op.foreign (op : Op) : Bool := op.p3 != 0 || op.p5 &&& 0x10 != 0

/-- `by_root.get(root)`: later rows of `sqlite_schema` replace earlier ones. -/
def Schema.tableAt (s : Schema) (root : ℤ) : Option String :=
  (s.roots.reverse.find? (fun r => r.1 == root)).map (·.2)

/-- A table has the same contents in two files. -/
def SameContents (db db' : Db) (table : String) : Prop :=
  if nocase table = nocase trackedTable then db.tracked = db'.tracked
  else db.rows (nocase table) = db'.rows (nocase table)

/-- A query: what `EXPLAIN` lists for it and what it returns.  A query that opens tables of the
file only, each by its root page, returns what these tables make it return. -/
structure Query where
  explain : Schema → Except Error (List Op)
  result : Db → Except Error (List String × List (List Value))
  reads : ∀ db db' ops, db.schema = db'.schema → explain db.schema = .ok ops →
    (∀ op ∈ ops, op.opcode ≠ "VOpen") →
    (∀ op ∈ ops, op.opens = true → op.foreign = false ∧
      ∃ t, db.schema.tableAt op.p2 = some t ∧ SameContents db db' t) →
      result db = result db'

/-- What a live query compares to decide it is stale. -/
inductive Watch
  | file
  | tables (names : List String)
  deriving DecidableEq, Repr

inductive Changes
  | file (dataVersion totalChanges : ℕ)
  | tables (sum count : ℕ)
  deriving DecidableEq, Repr

/-- The change counters as of the last run. -/
structure Seen where
  schemaVersion : ℕ
  changes : Changes
  deriving DecidableEq, Repr

/-- A file as a connection reads it: its contents and `data_version`. -/
structure View where
  db : Db
  dataVersion : ℕ

/-- The rows of the version table for some names. -/
def versions (names : List String) (rows : List (String × ℕ)) : List (String × ℕ) :=
  rows.filter (fun r => names.any (fun n => decide (nocase r.1 = nocase n)))

def counters (watch : Watch) (view : View) (totalChanges : ℕ) : Except Error Seen :=
  match watch with
  | .file => .ok ⟨view.db.schemaVersion, .file view.dataVersion totalChanges⟩
  | .tables names =>
      match view.db.tracked with
      | none => .error .sql
      | some rows =>
          let vs := versions names rows
          .ok ⟨view.db.schemaVersion, .tables (vs.map (·.2)).sum vs.length⟩

/-- The table has its three triggers. -/
def Schema.hasTriggers (s : Schema) (table : String) : Bool :=
  (s.triggers.filter (fun g =>
    decide (nocase g.on = nocase table) &&
      Live.triggers.any (fun e => decide (g.name = nocase (trigger table e.suffix))))).length
    == Live.triggers.length

/-- A table counts as tracked when it has its version row and its three triggers. -/
def isTracked (db : Db) (table : String) : Bool :=
  (db.tracked.getD []).any (fun r => r.1 == table) && db.schema.hasTriggers table

/-- The tables a query opens, or `none` where they cannot be told. -/
def opened (s : Schema) (ops : List Op) : Option (List String) :=
  if ops.any (fun op => op.opcode == "VOpen" || (op.opens && op.foreign)) then none
  else
    (((ops.filter Op.opens).mapM (fun op => s.tableAt op.p2))).map
      (fun ts => ts.dedup.insertionSort (· ≤ ·))

/-- Work out what to watch: the tables the query opens, when every one of them is tracked, or else
the whole file. -/
def resolveWatch (Q : Query) (db : Db) : Except Error Watch := do
  let ops ← Q.explain db.schema
  pure (match opened db.schema ops with
    | none => .file
    | some ts =>
        if ts.isEmpty || db.tracked.isNone then .file
        else if ts.all (isTracked db) then .tables ts else .file)

/-- A live query: its key columns, the columns and rows of its last run, and what it watches. -/
structure LiveQuery where
  key : Option (List ℕ)
  columns : List String
  rows : List (List Value)
  watch : Watch
  seen : Seen

/-! ### The system -/

/-- The transaction of the live query's connection.  `BEGIN` takes no snapshot until something is
read.  A transaction that writes has its own version of the file, which no other connection writes
to meanwhile; `touched` notes that a live query took over something it read in it. -/
inductive Txn
  | none
  | begun
  | reading (db : Db) (dataVersion : ℕ)
  | writing (db : Db) (touched : Bool)

/-- Where the live query is: not made yet, between two calls, or before the named step of a call;
`new` tells `LiveQuery::new` from `refresh`. -/
inductive Call
  | none
  | idle
  | resolving
  | reread (new : Bool)
  | running (new : Bool)
  deriving DecidableEq, Repr

/-- The file, with the number of commits of other connections; the live query's connection; the
live query; and what a refresh returned in the last step, if one did. -/
structure Sys where
  file : Db
  commits : ℕ
  txn : Txn
  totalChanges : ℕ
  live : LiveQuery
  call : Call
  returned : Option (Except Error (Option Diff))

/-- The file as the live query's connection sees it. -/
def Sys.view (s : Sys) : View :=
  match s.txn with
  | .none | .begun => ⟨s.file, s.commits⟩
  | .reading db v => ⟨db, v⟩
  | .writing db _ => ⟨db, s.commits⟩

/-- The first read in a transaction takes its snapshot. -/
def Sys.pin (s : Sys) : Sys :=
  match s.txn with
  | .begun => { s with txn := .reading s.file s.commits }
  | _ => s

/-- The live query takes over what it read. -/
def Sys.touch (s : Sys) : Sys :=
  match s.txn with
  | .writing db _ => { s with txn := .writing db true }
  | _ => s

/-- A statement of the live query's connection.  A transaction whose snapshot is behind the file
cannot write. -/
def Sys.own (s : Sys) (st : Stmt) : Option Sys :=
  if st.idle s.view.db then some s.pin
  else
    (st.exec s.view.db).bind (fun r =>
      let s' := { s with totalChanges := s.totalChanges + r.2 }
      match s.txn with
      | .none => some { s' with file := r.1 }
      | .begun => some { s' with txn := .writing r.1 false }
      | .reading _ v =>
          if v = s.commits then some { s' with txn := .writing r.1 false } else none
      | .writing _ touched => some { s' with txn := .writing r.1 touched })

def Sys.commit (s : Sys) : Option Sys :=
  match s.txn with
  | .none => none
  | .begun | .reading _ _ => some { s with txn := .none }
  | .writing db _ => some { s with file := db, txn := .none }

def Sys.rollback (s : Sys) : Option Sys :=
  match s.txn with
  | .none => none
  | _ => some { s with txn := .none }

/-- A transaction that another connection commits; none can while this one writes. -/
def Sys.foreign (s : Sys) (sts : List Stmt) : Option Sys :=
  match s.txn with
  | .writing _ _ => none
  | _ =>
      (Run.exec Stmt.after s.file sts).map (fun db =>
        { s with file := db, commits := s.commits + 1 })

/-- A call of the live query fails at its next step: `new` leaves no live query behind. -/
def Sys.failed (s : Sys) (e : Error) : Sys :=
  match s.call with
  | .none => s
  | .idle | .resolving | .reread false | .running false =>
      { s with call := .idle, returned := some (.error e) }
  | .reread true | .running true => { s with call := .none }

/-- The first step of `refresh`. -/
def Sys.refresh (s : Sys) : Sys :=
  match counters s.live.watch s.view s.totalChanges with
  | .error e => s.failed e
  | .ok now =>
      if now = s.live.seen then { s.pin with returned := some (.ok none) }
      else if now.schemaVersion ≠ s.live.seen.schemaVersion then
        { s.pin.touch with call := .resolving }
      else { s.pin.touch with live := { s.live with seen := now }, call := .running false }

/-- The step of `new` or `refresh` that works out what to watch. -/
def Sys.resolve (Q : Query) (new : Bool) (s : Sys) : Sys :=
  match resolveWatch Q s.view.db with
  | .error e => s.failed e
  | .ok watch => { s.pin.touch with live := { s.live with watch }, call := .reread new }

/-- The step that reads the counters again. -/
def Sys.rereadCounters (new : Bool) (s : Sys) : Sys :=
  match counters s.live.watch s.view s.totalChanges with
  | .error e => s.failed e
  | .ok seen => { s.pin.touch with live := { s.live with seen }, call := .running new }

/-- The difference a refresh reports. -/
def LiveQuery.diff (q : LiveQuery) (rows : List (List Value)) : Except Error Diff :=
  match q.key with
  | some key => keyedDiff q.rows rows key
  | none => .ok (bagDiff q.rows rows)

/-- The step that runs the query. -/
def Sys.run (Q : Query) (new : Bool) (s : Sys) : Sys :=
  match Q.result s.view.db with
  | .error e => s.failed e
  | .ok (columns, rows) =>
      let live := { s.live with columns, rows }
      if new then { s.pin.touch with live, call := .idle }
      else
        match s.live.diff rows with
        | .error e => s.failed e
        | .ok d =>
            { s.pin.touch with
              live, call := .idle
              returned := some (.ok (if d.isEmpty then none else some d)) }

/-- A connection that has not made a live query yet. -/
def Sys.init (file : Db) (commits totalChanges : ℕ) : Sys :=
  ⟨file, commits, .none, totalChanges, ⟨none, [], [], .file, ⟨0, .tables 0 0⟩⟩, .none, none⟩

/-- What can happen next: a statement, `SELECT`, `BEGIN`, `COMMIT` or `ROLLBACK` on the live
query's connection, a commit on another one, a call of `new`, `keyed_by` or `refresh` with its
first step, the next step of such a call, or its failing there. -/
inductive Action
  | stmt (st : Stmt)
  | read
  | begin
  | commit
  | rollback
  | foreign (sts : List Stmt)
  | new
  | keyedBy (columns : List ℕ)
  | refresh
  | next
  | fail (e : Error)

/-- The next step of a call. -/
def Sys.next (Q : Query) (s : Sys) : Option Sys :=
  match s.call with
  | .none | .idle => none
  | .resolving => some (s.resolve Q false)
  | .reread new => some (s.rereadCounters new)
  | .running new => some (s.run Q new)

def Sys.act (Q : Query) (s : Sys) : Action → Option Sys
  | .stmt st => s.own st
  | .read => some s.pin
  | .begin => match s.txn with | .none => some { s with txn := .begun } | _ => none
  | .commit => s.commit
  | .rollback => s.rollback
  | .foreign sts => s.foreign sts
  | .new =>
      if s.call = .none then
        some (Sys.resolve Q true { s with live := ⟨none, [], [], .file, ⟨0, .tables 0 0⟩⟩ })
      else none
  | .keyedBy columns =>
      if s.call = .idle then some { s with live := { s.live with key := some columns } } else none
  | .refresh => if s.call = .idle then some s.refresh else none
  | .next => s.next Q
  | .fail e => if s.call = .none then none else some (s.failed e)

/-- One step of the system. -/
def Sys.step (Q : Query) (s : Sys) (a : Action) : Option Sys :=
  Sys.act Q { s with returned := none } a

end SqlAnywhere.Live
