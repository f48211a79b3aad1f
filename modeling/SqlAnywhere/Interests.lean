import Mathlib.Data.String.Basic
import SqlAnywhere.Live
import SqlAnywhere.VectorBlob

/-!
# Interests in the vectors of a column

`interests.rs`: an interest is a vector and a distance, registered for a column of a table.  Two
triggers on the table publish an event for each interest that a row's vector comes close to.

* `install`, `uninstall`, `subscribe`, `unsubscribe` — the calls, on a database
* `Db.write` — a statement of an application, with the triggers that it fires
* `Sys.step` — calls and statements, in transactions that are committed or rolled back
* `Ledger` — what the calls have asked for, and `Ledger.due`, the events that a statement owes

The tables of the application are fixed, and none of them is one that the calls make.
-/

namespace SqlAnywhere.Interests

open Live (nocase)
open VectorBlob

/-! ### Columns of vectors -/

def isWhitespace (c : Char) : Bool :=
  let n := c.toNat
  (9 ≤ n && n ≤ 13) || n = 32 || n = 0x85 || n = 0xa0 || n = 0x1680 ||
    (0x2000 ≤ n && n ≤ 0x200a) || n = 0x2028 || n = 0x2029 || n = 0x202f || n = 0x205f || n = 0x3000

def trim (cs : List Char) : List Char :=
  ((cs.dropWhile isWhitespace).reverse.dropWhile isWhitespace).reverse

/-- `str::parse::<usize>`. -/
def parseUsize (cs : List Char) : Option ℕ :=
  let digits := if cs.head? = some '+' then cs.tail else cs
  let n := digits.foldl (fun n c => 10 * n + (c.toNat - '0'.toNat)) 0
  if digits ≠ [] ∧ digits.all Char.isDigit ∧ n < 2 ^ 64 then some n else none

/-- The constructor of vectors of a type, by the type's name. -/
def ctor (base : String) : Option VectorType :=
  if base = "FLOAT32" ∨ base = "F32_BLOB" then some .float32
  else if base = "FLOAT64" ∨ base = "F64_BLOB" then some .float64
  else if base = "FLOAT16" ∨ base = "F16_BLOB" then some .float16
  else if base = "FLOATB16" ∨ base = "FB16_BLOB" then some .floatb16
  else if base = "FLOAT8" ∨ base = "F8_BLOB" then some .float8
  else if base = "FLOAT1BIT" ∨ base = "F1BIT_BLOB" then some .float1bit
  else none

/-- A declared type, such as `FLOAT32(4)`. -/
def vectorDecl (decl : String) : Option (VectorType × ℕ) :=
  match (decl.toList.map Char.toUpper).span (· ≠ '(') with
  | (base, _ :: rest) =>
    if rest.getLast? = some ')' then
      (parseUsize (trim rest.dropLast)).bind fun dims =>
        (ctor (String.ofList (trim base))).map fun type => (type, dims)
    else none
  | _ => none

/-- A table of the application: its columns with their declared types. -/
structure TableInfo where
  name : String
  columns : List (String × String)
  withoutRowid : Bool

/-- The tables, and the parts of the engine that the calls use: how numbers are read, what the
constructors of vectors make of a text, and the cosine distance. -/
structure Engine where
  tables : List TableInfo
  isFloat : List Char → Bool
  construct : VectorType → String → Option (List UInt8)
  cosine : VectorType → List UInt8 → List UInt8 → Option ℚ

inductive Error
  | misuse (what : String)
  | vector (e : VectorError)
  | noSuchColumn
  | construct
  | json
  | nested
  deriving DecidableEq

/-- SQLite finds a table without regard to case. -/
def Engine.tableAt (E : Engine) (name : String) : Option TableInfo :=
  E.tables.find? fun t => nocase t.name = nocase name

/-- `Interests::vector_type`.  The name of the column is compared as it is. -/
def vectorType (E : Engine) (table column : String) : Except Error (VectorType × ℕ) :=
  match (E.tableAt table).bind fun t => t.columns.find? fun c => c.1 = column with
  | none => .error (.misuse "no such table or column")
  | some (_, decl) =>
    match vectorDecl decl with
    | none => .error (.misuse s!"`{decl}` is not a vector column type")
    | some found => .ok found

/-- The number of elements in a literal such as `[a, b, c]`. -/
def literalDims (E : Engine) (vector : String) : Option ℕ :=
  match trim vector.toList with
  | '[' :: rest =>
    if rest.getLast? = some ']' then
      let inner := trim rest.dropLast
      if inner = [] then some 0
      else
        let parts := inner.splitOn ','
        if parts.all fun part => E.isFloat (trim part) then some parts.length else none
    else none
  | _ => none

/-! ### The database -/

structure Interest where
  tbl : String
  col : String
  name : String
  channel : String
  maxDistance : ℚ
  vec : List UInt8
  deriving DecidableEq

/-- An event, with the payload that a trigger publishes. -/
structure Event where
  channel : String
  table : String
  column : String
  rowid : Value
  interest : String
  distance : ℚ
  deriving DecidableEq

inductive Kind
  | ins
  | upd
  deriving DecidableEq

def Kind.suffix : Kind → String
  | .ins => "ins"
  | .upd => "upd"

def trigger (table column kind : String) : String :=
  s!"sqlanywhere_interest_{table}_{column}_{kind}"

/-- A trigger that was made for a table and a column. -/
structure Trigger where
  table : String
  column : String
  kind : Kind
  deriving DecidableEq

/-- The name of a trigger, as SQLite compares it. -/
def Trigger.name (g : Trigger) : List Char := nocase (trigger g.table g.column g.kind.suffix)

/-- The triggers, the registry, if it was made, and the events that were published. -/
structure Db where
  triggers : List Trigger
  hasRegistry : Bool
  registry : List Interest
  events : List Event

namespace Db

/-- `CREATE TRIGGER IF NOT EXISTS`. -/
def addTrigger (db : Db) (g : Trigger) : Db :=
  if db.triggers.any fun g' => g'.name = g.name then db
  else { db with triggers := db.triggers ++ [g] }

/-- `DROP TRIGGER IF EXISTS`. -/
def dropTrigger (db : Db) (g : Trigger) : Db :=
  { db with triggers := db.triggers.filter fun g' => g'.name ≠ g.name }

end Db

def install (E : Engine) (db : Db) (table column : String) : Except Error Db :=
  (vectorType E table column).bind fun _ =>
    -- this name, too, is compared as it is
    if E.tables.any fun t => t.name = table && t.withoutRowid then
      .error (.misuse "needs a table with a rowid, not WITHOUT ROWID")
    else
      .ok ((({ db with hasRegistry := true } : Db).addTrigger ⟨table, column, .ins⟩).addTrigger
        ⟨table, column, .upd⟩)

def uninstall (db : Db) (table column : String) : Db :=
  let dropped := (db.dropTrigger ⟨table, column, .ins⟩).dropTrigger ⟨table, column, .upd⟩
  { dropped with registry := db.registry.filter fun i => ¬ (i.tbl = table ∧ i.col = column) }

/-- The checks of `subscribe`, and the row that it registers. -/
def newInterest (E : Engine) (db : Db) (table column name channel vector : String)
    (maxDistance : ℚ) : Except Error Interest :=
  (vectorType E table column).bind fun (type, dims) =>
    match literalDims E vector with
    | none => .error (.misuse s!"`{vector}` is not a vector literal")
    | some given =>
      if given ≠ dims then
        .error (.misuse s!"the interest has {given} dimensions, the column {dims}")
      else if ¬ (0 ≤ maxDistance ∧ maxDistance ≤ 2) then
        .error (.misuse "max_distance is a cosine distance, from 0 to 2")
      else if db.hasRegistry = false then .error (.misuse "install it before subscribing")
      else
        match E.construct type vector with
        | none => .error .construct
        | some vec => .ok ⟨table, column, name, channel, maxDistance, vec⟩

def unsubscribe (db : Db) (table column name : String) : Db :=
  { db with
    registry := db.registry.filter fun i => ¬ (i.tbl = table ∧ i.col = column ∧ i.name = name) }

/-- `INSERT OR REPLACE`, by which `subscribe` registers an interest. -/
def subscribe (db : Db) (i : Interest) : Db :=
  let rest := unsubscribe db i.tbl i.col i.name
  { rest with registry := rest.registry ++ [i] }

/-! ### Statements of the application -/

/-- A row before and after a statement. -/
structure Change where
  rowid : Int64
  old : Option Row
  new : Option Row

/-- A statement on a table: whether it inserts rows, the columns that it sets in others, and what it
does to the rows.  A column that it does not set keeps its value. -/
structure Write where
  table : String
  inserts : Bool
  sets : List String
  changes : List Change
  kept : ∀ change ∈ changes, ∀ old ∈ change.old, ∀ new ∈ change.new, ∀ column,
    column ∉ sets → new column = old column

/-- The value that a change gives to a column, if it is not `NULL` and not what was there.  (Blobs
are the same just when they are equal, and nothing depends on how other values compare.) -/
def Change.given (change : Change) (column : String) : Option Value :=
  change.new.bind fun new =>
    if new column = .null ∨ change.old.map (fun old => old column) = some (new column) then none
    else some (new column)

/-- The value with which a change fires a trigger on its table. -/
def Trigger.fires (g : Trigger) (w : Write) (change : Change) : Option Value :=
  match g.kind, change.old with
  | .ins, none => change.given g.column
  | .upd, some _ => if g.column ∈ w.sets then change.given g.column else none
  | _, _ => none

/-- The distance of a value to an interest, as the trigger computes it. -/
def Interest.distance (E : Engine) (i : Interest) : Value → Except Error (Option ℚ)
  | .blob b =>
    if b.length = i.vec.length then
      (vectorDistanceFunc E.cosine i.vec b).mapError .vector
    else .ok none
  | _ => .ok none

/-- The distance of a value to an interest. -/
def Interest.distance? (E : Engine) (i : Interest) : Value → Option ℚ
  | .blob b => VectorBlob.distance? E.cosine i.vec b
  | _ => none

def Interest.event (i : Interest) (table column : String) (rowid : Value) (d : ℚ) : Event :=
  ⟨i.channel, table, column, rowid, i.name, d⟩

/-- The event for an interest with its distance, if it is within reach. -/
def Interest.reached (i : Interest) (table column : String) (rowid : Value) (d : Option ℚ) :
    Option Event :=
  d.bind fun d => if d ≤ i.maxDistance then some (i.event table column rowid d) else none

/-- The nearest first, and then by name. -/
def Event.before (e e' : Event) : Prop :=
  e.distance < e'.distance ∨ e.distance = e'.distance ∧ e.interest ≤ e'.interest

instance : DecidableRel Event.before := fun _ _ => inferInstanceAs (Decidable (_ ∨ _ ∧ _))

/-- A column of the table that has the name `rowid`. -/
def Engine.rowidColumn (E : Engine) (table : String) : Option String :=
  (E.tableAt table).bind fun t => (t.columns.map (·.1)).find? fun c => nocase c = nocase "rowid"

/-- What a trigger reads as `new.rowid`: a column of that name, where the table has one. -/
def Change.newRowid (E : Engine) (table : String) (change : Change) : Value :=
  match E.rowidColumn table, change.new with
  | some c, some new => new c
  | _, _ => .integer change.rowid

def isBlob : Value → Bool
  | .blob _ => true
  | _ => false

namespace Db

/-- `Interests::publish_sql`. -/
def publish (E : Engine) (db : Db) (table column : String) (rowid v : Value) :
    Except Error (List Event) :=
  let interests := db.registry.filter fun i => i.tbl = table ∧ i.col = column
  (interests.mapM fun i : Interest => (i.distance E v).map fun d => i.reached table column rowid d).bind
    fun found =>
      let events := (found.filterMap id).insertionSort Event.before
      -- `json_object` takes no blobs
      if isBlob rowid && !events.isEmpty then .error .json else .ok events

def fire (E : Engine) (db : Db) (w : Write) (change : Change) (g : Trigger) :
    Except Error (List Event) :=
  if nocase g.table = nocase w.table then
    match g.fires w change with
    | none => .ok []
    | some v => db.publish E g.table g.column (change.newRowid E g.table) v
  else .ok []

/-- The triggers of a table without rowids read one all the same, so no statement can be compiled
that might fire them. -/
def compiles (E : Engine) (db : Db) (w : Write) : Bool :=
  !((E.tableAt w.table).any TableInfo.withoutRowid && db.triggers.any fun g =>
    nocase g.table = nocase w.table &&
      match g.kind with
      | .ins => w.inserts
      | .upd => w.sets.contains g.column)

/-- A statement that succeeds on its own, with the triggers. -/
def write (E : Engine) (db : Db) (w : Write) : Except Error Db :=
  if db.compiles E w then
    (w.changes.mapM fun change => db.triggers.mapM (db.fire E w change)).map fun published =>
      { db with events := db.events ++ published.flatten.flatten }
  else .error .noSuchColumn

end Db

/-! ### What the calls ask for -/

/-- The columns that are watched and the interests that are registered.  A table is the same under
any spelling of its name. -/
structure Ledger where
  watched : List (String × String)
  interests : List Interest

namespace Ledger

def Watches (l : Ledger) (table column : String) : Prop :=
  ∃ p ∈ l.watched, nocase p.1 = nocase table ∧ p.2 = column

instance (l : Ledger) (table column : String) : Decidable (l.Watches table column) :=
  inferInstanceAs (Decidable (∃ p ∈ l.watched, _))

def install (l : Ledger) (table column : String) : Ledger :=
  if l.Watches table column then l else { l with watched := l.watched ++ [(table, column)] }

def uninstall (l : Ledger) (table column : String) : Ledger where
  watched := l.watched.filter fun p => ¬ (nocase p.1 = nocase table ∧ p.2 = column)
  interests := l.interests.filter fun i => ¬ (nocase i.tbl = nocase table ∧ i.col = column)

def unsubscribe (l : Ledger) (table column name : String) : Ledger :=
  { l with
    interests := l.interests.filter fun i =>
      ¬ (nocase i.tbl = nocase table ∧ i.col = column ∧ i.name = name) }

def subscribe (l : Ledger) (i : Interest) : Ledger :=
  let rest := l.unsubscribe i.tbl i.col i.name
  { rest with interests := rest.interests ++ [i] }

/-- The event that a change owes an interest: the interest is in a column that is watched, the change
gives it a vector, and the two have a distance that is within reach. -/
def owed (E : Engine) (l : Ledger) (w : Write) (change : Change) (i : Interest) : Option Event :=
  if nocase i.tbl = nocase w.table ∧ l.Watches i.tbl i.col then
    (change.given i.col).bind fun v =>
      i.reached i.tbl i.col (.integer change.rowid) (i.distance? E v)
  else none

/-- **The events that a statement owes**: one for each change and each interest within reach. -/
def due (E : Engine) (l : Ledger) (w : Write) : List Event :=
  w.changes.flatMap fun change => l.interests.filterMap (l.owed E w change)

end Ledger

/-! ### Transactions -/

structure State where
  db : Db
  ledger : Ledger

/-- What is visible in the open transaction, if there is one, and what a rollback goes back to. -/
structure Sys where
  now : State
  saved : Option State

inductive Action
  | begin
  | commit
  | rollback
  | install (table column : String)
  | uninstall (table column : String)
  | subscribe (table column name channel vector : String) (maxDistance : ℚ)
  | unsubscribe (table column name : String)
  | write (w : Write)

namespace Sys

def new : Sys := ⟨⟨⟨[], false, [], []⟩, ⟨[], []⟩⟩, none⟩

/-- What a call leaves: a call that fails, or that begins a transaction in one, changes nothing. -/
def after (s : Sys) (called : Except Error State) : Sys :=
  match called with
  | .ok now => { s with now }
  | .error _ => s

/-- `install` and `uninstall` are transactions of their own. -/
def alone (s : Sys) (called : Except Error State) : Except Error State :=
  if s.saved.isSome then .error .nested else called

def call (E : Engine) (s : Sys) : Action → Except Error State
  | .install table column =>
    s.alone ((Interests.install E s.now.db table column).map fun db =>
      ⟨db, s.now.ledger.install table column⟩)
  | .uninstall table column =>
    s.alone (.ok ⟨Interests.uninstall s.now.db table column, s.now.ledger.uninstall table column⟩)
  | .subscribe table column name channel vector maxDistance =>
    (newInterest E s.now.db table column name channel vector maxDistance).map fun i =>
      ⟨Interests.subscribe s.now.db i, s.now.ledger.subscribe i⟩
  | .unsubscribe table column name =>
    .ok ⟨Interests.unsubscribe s.now.db table column name,
      s.now.ledger.unsubscribe table column name⟩
  | .write w => (s.now.db.write E w).map fun db => ⟨db, s.now.ledger⟩
  | _ => .ok s.now

def step (E : Engine) (s : Sys) : Action → Option Sys
  | .begin => if s.saved.isNone then some { s with saved := some s.now } else none
  | .commit => s.saved.map fun _ => { s with saved := none }
  | .rollback => s.saved.map fun saved => ⟨saved, none⟩
  | a => some (s.after (s.call E a))

end Sys

end SqlAnywhere.Interests
