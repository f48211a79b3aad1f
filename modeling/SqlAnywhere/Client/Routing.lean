import SqlAnywhere.Server.StmtKind

/-!
# Which statements a client runs itself

A client with a copy of a database parses every text, and decides from the kinds of its statements and
from the state it believes its transaction to be in whether the text is run on the copy or sent to the
server.

* `Cmd.kind`, `parse` — the classification, which ends at the first statement without a kind
* `State.step`, `predictFinalState`, `route` — the states and the decision
* `Cmd.mayWrite_of_kind` — of the commands whose kind counts as reading, only a query that has a
  function write can write
* `Cmd.sql_of_isReadOnly` — the server classifies them as reading too, or as the end of a transaction
* `route_here` — what is run on the copy counts as reading, and leads to the state predicted
-/

namespace SqlAnywhere.Client

open Server (Stmt QualifiedName)

/-- Statements by category, `StmtKind` of the client. -/
inductive StmtKind
  | txnBegin
  | txnBeginReadOnly
  | txnEnd
  | read
  | write
  | savepoint
  | release
  | attach
  | detach
  | other
  deriving DecidableEq

/-- A command, where `BEGIN READONLY` is told apart from the other ways to begin, and a query that
writes, by a function or a pragma that it reads as a table (`SELECT * FROM pragma_optimize`), from
others. -/
inductive Cmd
  | beginReadOnly
  | writingSelect
  | sql (cmd : Server.Cmd)
  deriving DecidableEq

def writeIfNotReserved (name : QualifiedName) : Option StmtKind :=
  if !Server.isReservedTbl name then some .write else none

/-- The names are compared as they are written. -/
def pragmaKind (name : QualifiedName) (body : Option String) : Option StmtKind :=
  let name := name.name
  if name ∈ Server.readPragmas then some .read
  else if name ∈ Server.primaryPragmas then some .write
  else if name ∈ "schema_version" :: Server.bodilessPragmas then
    match body with
    | some _ => none
    | none => some .write
  else none

def Cmd.kind : Cmd → Option StmtKind
  | .beginReadOnly => some .txnBeginReadOnly
  | .writingSelect => some .read
  | .sql (.explain (.pragma name body)) => pragmaKind name body
  -- Explaining a query does not run it, so a replica can answer it from its own file.
  | .sql (.explain .select) => some .read
  | .sql (.explain _) => some .other
  | .sql (.explainQueryPlan _) => some .other
  | .sql (.stmt s) =>
    match s with
    | .begin_ => some .txnBegin
    | .commit | .rollback none => some .txnEnd
    | .createVirtualTable tbl | .createTable false tbl =>
      if !Server.isTemp tbl then some .write else none
    | .insert tbl | .update tbl => writeIfNotReserved tbl
    | .delete tbl => writeIfNotReserved tbl
    | .dropTable tbl => writeIfNotReserved tbl
    | .alterTable tbl => writeIfNotReserved tbl
    | .dropIndex | .dropTrigger | .createTrigger false | .createIndex => some .write
    | .select => some .read
    | .pragma name body => pragmaKind name body
    | .createView false => some .write
    | .dropView => some .write
    | .savepoint _ => some .savepoint
    | .release _ | .rollback (some _) => some .release
    | .attach _ => some .attach
    | .detach => some .detach
    | .reindex => some .write
    | _ => none

/-- Statements about functions are not known to the parser, only to the engine. -/
def Cmd.parses : Cmd → Bool
  | .beginReadOnly | .writingSelect => true
  | .sql cmd =>
    match cmd.compiled with
    | .createFunction _ | .dropFunction => false
    | _ => true

def StmtKind.isReadOnly : StmtKind → Bool
  | .read | .txnBeginReadOnly | .txnEnd => true
  | _ => false

/-! ### Texts -/

/-- What stands between two semicolons. -/
inductive Piece
  | stmt (cmd : Cmd)
  | malformed
  deriving DecidableEq

inductive ParseError
  | unsupportedStatement
  | syntaxError
  deriving DecidableEq

def Piece.statement : Piece → Except ParseError StmtKind
  | .malformed => .error .syntaxError
  | .stmt cmd =>
    if cmd.parses then cmd.kind.elim (.error .unsupportedStatement) .ok else .error .syntaxError

/-- `Statement::parse`, collected up to the first error. -/
def parse : List Piece → Except ParseError (List StmtKind)
  | [] => .ok []
  | piece :: text =>
    match piece.statement with
    | .error e => .error e
    | .ok kind => (parse text).map (kind :: ·)

/-- The commands that the engine comes to, if none of them fails. -/
def commands : List Piece → List Cmd
  | .stmt cmd :: text => cmd :: commands text
  | _ => []

/-! ### The state of a transaction -/

inductive State
  | init
  | invalid
  | txn
  | txnReadOnly
  deriving DecidableEq

def State.step : State → StmtKind → State
  | .txnReadOnly, .txnBegin | .txn, .txnBegin | .init, .txnEnd => .invalid
  | .txnReadOnly, .txnEnd | .txn, .txnEnd => .init
  -- Savepoint only makes sense within a transaction and doesn't change the transaction kind
  | .txnReadOnly, .savepoint => .txnReadOnly
  | .txn, .savepoint => .txn
  | _, .savepoint => .invalid
  | .txnReadOnly, .release => .txnReadOnly
  | .txn, .release => .txn
  | _, .release => .invalid
  | state, .other | state, .write | state, .read | state, .attach | state, .detach => state
  | .invalid, _ => .invalid
  | .init, .txnBegin => .txn
  | .init, .txnBeginReadOnly => .txnReadOnly
  | .txn, .txnBeginReadOnly | .txnReadOnly, .txnBeginReadOnly => .invalid

def predictFinalState (state : State) (stmts : List StmtKind) : State := stmts.foldl State.step state

inductive RouteError
  /-- Invalid write in a readonly transaction -/
  | misuse
  | invalidParserState (state : State)
  deriving DecidableEq

/-- What becomes of a text. -/
inductive Route
  /-- it is run on the copy, and the state is set -/
  | here (state : State)
  /-- it is sent to the server -/
  | there
  /-- it is refused, and the state is set -/
  | refused (e : RouteError) (state : State)
  deriving DecidableEq

/-- The decision, which both kinds of connection take in the same way. -/
def route (state : State) (stmts : List StmtKind) : Route :=
  let isReadOnly := stmts.all StmtKind.isReadOnly
  match state, predictFinalState state stmts with
  | .init, .init => if isReadOnly then .here .init else .there
  | .init, .txnReadOnly | .txnReadOnly, .txnReadOnly =>
    if isReadOnly then .here .txnReadOnly else .refused .misuse state
  | .txnReadOnly, .init => if isReadOnly then .here .init else .refused .misuse state
  -- Reset state always back to init so the user can start over
  | state, .invalid => .refused (.invalidParserState state) .init
  | _, _ => .there

/-! ### What commands can do -/

/-- Settings that are kept in the database. -/
def storedSettings : List String :=
  ["application_id", "auto_vacuum", "default_cache_size", "journal_mode", "schema_version",
    "user_version"]

/-- A pragma can change the database: it sets something that is kept there, or rearranges it. -/
def pragmaMayWrite (name : QualifiedName) (body : Option String) : Bool :=
  name.name ∉ Server.readPragmas &&
    (name.name.toLower ∈ storedSettings && body.isSome ||
      name.name.toLower ∈ ["incremental_vacuum", "optimize"])

/-- A statement can change the database when it is run. -/
def stmtMayWrite : Stmt → Bool
  | .select | .begin_ | .commit | .rollback _ | .savepoint _ | .release _ | .attach _ | .detach =>
    false
  | .createTable temporary tbl => !(temporary || Server.isTemp tbl)
  | .createTrigger temporary | .createView temporary => !temporary
  | .pragma name body => pragmaMayWrite name body
  | _ => true

/-- A statement can change the database when it is only compiled: the tables of a vector index are
made and dropped then. -/
def compilingMayWrite : Stmt → Bool
  | .createIndex | .dropIndex | .dropTable _ | .createFunction _ => true
  | _ => false

def Cmd.mayWrite : Cmd → Bool
  | .beginReadOnly => false
  | .writingSelect => true
  | .sql (.explain s) | .sql (.explainQueryPlan s) => compilingMayWrite s
  | .sql (.stmt s) => stmtMayWrite s

theorem pragma_of_isReadOnly {name : QualifiedName} {body : Option String} {kind : StmtKind}
    (h : pragmaKind name body = some kind) (hread : kind.isReadOnly = true) :
    name.name ∈ Server.readPragmas := by
  simp only [pragmaKind] at h
  split_ifs at h with hname
  · exact hname
  · cases h
    cases hread
  · cases body with
    | some _ => cases h
    | none =>
      cases h
      cases hread

/-- The statements that count as reading. -/
theorem stmt_of_isReadOnly {s : Stmt} {kind : StmtKind} (h : (Cmd.sql (.stmt s)).kind = some kind)
    (hread : kind.isReadOnly = true) :
    s = .select ∨ s = .commit ∨ s = .rollback none ∨
      ∃ name body, s = .pragma name body ∧ name.name ∈ Server.readPragmas := by
  -- what is written under a name that is not reserved is of a kind that writes
  have hwrite : ∀ {b : Bool}, (if b then some StmtKind.write else none) = some kind → False := by
    intro b hkind
    split_ifs at hkind
    cases hkind
    cases hread
  cases s with
  | select => exact .inl rfl
  | commit => exact .inr (.inl rfl)
  | rollback savepoint =>
    cases savepoint with
    | none => exact .inr (.inr (.inl rfl))
    | some _ => cases h; cases hread
  | pragma name body => exact .inr (.inr (.inr ⟨name, body, rfl, pragma_of_isReadOnly h hread⟩))
  | createTable temporary tbl =>
    cases temporary with
    | true => cases h
    | false => exact (hwrite h).elim
  | createTrigger temporary | createView temporary =>
    cases temporary with
    | true => cases h
    | false => cases h; cases hread
  | createVirtualTable | insert | update | delete | dropTable | alterTable => exact (hwrite h).elim
  | analyze | vacuum | createFunction | dropFunction => cases h
  | _ => cases h; cases hread

theorem pragma_reads {name : QualifiedName} (h : name.name ∈ Server.readPragmas)
    (body : Option String) :
    pragmaMayWrite name body = false ∧ Server.pragmaKind name body = some .read := by
  have hlower : ∀ n ∈ Server.readPragmas, n.toLower = n := by decide +kernel
  constructor
  · simp only [pragmaMayWrite, h, not_true_eq_false, decide_false, Bool.false_and]
  · simp only [Server.pragmaKind, hlower _ h, h, if_true]

/-- What counts as reading for a client does not write, and is read or ends a transaction for the
server: the right to read is enough for it there. -/
theorem Cmd.sql_of_isReadOnly {cmd : Server.Cmd} {kind : StmtKind}
    (h : (Cmd.sql cmd).kind = some kind) (hread : kind.isReadOnly = true) :
    (Cmd.sql cmd).mayWrite = false ∧ (cmd.kind = some .read ∨ cmd.kind = some .txnEnd) := by
  cases cmd with
  | explain s =>
    cases s with
    | pragma name body => exact ⟨rfl, .inl (pragma_reads (pragma_of_isReadOnly h hread) body).2⟩
    | select => exact ⟨rfl, .inl rfl⟩
    | _ => cases h; cases hread
  | explainQueryPlan s => cases h; cases hread
  | stmt s =>
    rcases stmt_of_isReadOnly h hread with rfl | rfl | rfl | ⟨name, body, rfl, hname⟩
    · exact ⟨rfl, .inl rfl⟩
    · exact ⟨rfl, .inr rfl⟩
    · exact ⟨rfl, .inr rfl⟩
    · exact (pragma_reads hname body).imp_right .inl

/-- **What counts as reading cannot write**, if it is not a query that does. -/
theorem Cmd.mayWrite_of_kind {cmd : Cmd} {kind : StmtKind} (h : cmd.kind = some kind)
    (hread : kind.isReadOnly = true) (hselect : cmd ≠ .writingSelect) : cmd.mayWrite = false := by
  cases cmd with
  | beginReadOnly => rfl
  | writingSelect => exact absurd rfl hselect
  | sql cmd => exact (Cmd.sql_of_isReadOnly h hread).1

/-! ### What is decided -/

/-- A text that is run on the copy has statements only that count as reading, and the state becomes
the one predicted. -/
theorem route_here {state state' : State} {stmts : List StmtKind}
    (h : route state stmts = .here state') :
    stmts.all StmtKind.isReadOnly = true ∧ state' = predictFinalState state stmts ∧
      (state = .init ∨ state = .txnReadOnly) ∧ (state' = .init ∨ state' = .txnReadOnly) := by
  simp only [route] at h
  split at h <;> rename_i hpredicted
  · split_ifs at h with hread
    cases h
    exact ⟨hread, hpredicted.symm, .inl rfl, .inl rfl⟩
  · split_ifs at h with hread
    cases h
    exact ⟨hread, hpredicted.symm, .inl rfl, .inr rfl⟩
  · split_ifs at h with hread
    cases h
    exact ⟨hread, hpredicted.symm, .inr rfl, .inr rfl⟩
  · split_ifs at h with hread
    cases h
    exact ⟨hread, hpredicted.symm, .inr rfl, .inl rfl⟩
  · cases h
  · cases h

theorem route_eq_here {state : State} {stmts : List StmtKind}
    (hread : stmts.all StmtKind.isReadOnly = true) (hstate : state = .init ∨ state = .txnReadOnly)
    (hfinal : predictFinalState state stmts = .init ∨ predictFinalState state stmts = .txnReadOnly) :
    route state stmts = .here (predictFinalState state stmts) := by
  rcases hstate with rfl | rfl <;> rcases hfinal with hfinal | hfinal <;>
    simp only [route, hfinal, hread, if_true]

end SqlAnywhere.Client
