import SqlAnywhere.Client.Replica

/-!
# What a connection makes of the answers of the primary

A text that is not run on the replica is sent to the primary as a program with a step for each
statement, and comes back with a result for each step.

* `firstResult`, `eachResult` — what `execute` and `query`, and what `run` look at
* `Call.perform` — a call of the connection, or of a statement that it has prepared
* `Call.right_iff` — when a call reports every failure, and does not panic
-/

namespace SqlAnywhere.Client

/-- `RowResult`, with the rows of a step. -/
inductive RowResult (ρ : Type)
  | row (row : ρ)
  | error (code extendedCode : Int) (message : String)

inductive CallError
  | parse (e : ParseError)
  | route (e : RouteError)
  /-- the text, or the `ROLLBACK` after it, fails on the replica -/
  | onReplica
  /-- Cannot delegate write in local replica mode. -/
  | misuse
  | writeDelegation
  | sync
  | remoteSqliteFailure (code extendedCode : Int) (message : String)

inductive Answer (ρ : Type)
  /-- with the result of the primary that is returned -/
  | ok (row : Option ρ)
  | failed (e : CallError)
  | panics

structure ExecuteResults (ρ : Type) where
  results : List (Option (RowResult ρ))
  /-- `none`: the number is not one of a state -/
  state : Option State

/-- What comes of a call outside of the connection. -/
structure Surroundings (ρ : Type) where
  /-- the text succeeds on the replica, and leaves it in autocommit mode -/
  succeeds : Bool
  autocommit : Bool
  rollsBack : Bool
  reply : Option (ExecuteResults ρ)
  /-- `sync_oneshot` succeeds, or there is no replicator -/
  syncs : Bool

inductive Call
  | execute (state : State) (text : List Piece)
  | stmtExecute (p : Prepared)
  | stmtQuery (p : Prepared)
  | stmtRun (p : Prepared)

variable {ρ : Type}

/-- `execute` and `query`: the first result is looked at. -/
def firstResult : List (Option (RowResult ρ)) → Answer ρ
  | [] => .panics
  | none :: _ => .panics
  | some (.row row) :: _ => .ok (some row)
  | some (.error code extendedCode message) :: _ =>
    .failed (.remoteSqliteFailure code extendedCode message)

/-- `run`: the results are looked at up to the first error. -/
def eachResult : List (Option (RowResult ρ)) → Answer ρ
  | [] => .ok none
  | none :: _ => .panics
  | some (.row _) :: results => eachResult results
  | some (.error code extendedCode message) :: _ =>
    .failed (.remoteSqliteFailure code extendedCode message)

namespace Call

/-- The answer of a call that needs no primary. -/
def here (o : Surroundings ρ) : Call → Option (Answer ρ)
  | .execute state text =>
    match parse text with
    | .error e => some (.failed (.parse e))
    | .ok stmts =>
      match route state stmts with
      | .refused e _ => some (.failed (.route e))
      | .there => none
      | .here state' =>
        if !o.succeeds then some (.failed .onReplica)
        -- `maybe_execute_rollback`
        else if state' ≠ .txnReadOnly && !o.autocommit then
          if o.rollsBack then none else some (.failed .onReplica)
        else some (.ok none)
  | .stmtExecute p | .stmtQuery p | .stmtRun p =>
    if p.isLocal then some (if o.succeeds then .ok none else .failed .onReplica) else none

def look : Call → List (Option (RowResult ρ)) → Answer ρ
  | .stmtRun _ => eachResult
  | _ => firstResult

/-- `execute_remote`, and what the call makes of the results.  The state and the counters of the
connection, which are set from the reply, are left out. -/
def delegate (call : Call) (writer : Bool) (o : Surroundings ρ) : Answer ρ :=
  if !writer then .failed .misuse
  else
    match o.reply with
    | none => .failed .writeDelegation
    | some ⟨_, none⟩ => .panics
    | some ⟨results, some _⟩ => if o.syncs then call.look results else .failed .sync

def perform (call : Call) (writer : Bool) (o : Surroundings ρ) : Answer ρ :=
  (call.here o).getD (call.delegate writer o)

end Call

def RowResult.isError : RowResult ρ → Bool
  | .row _ => false
  | .error _ _ _ => true

/-- A step was run and has failed. -/
def failedStep (result : Option (RowResult ρ)) : Bool := result.any RowResult.isError

/-- It does not panic, and it is a success only if no step has failed. -/
def Answer.Right (answer : Answer ρ) (results : List (Option (RowResult ρ))) : Prop :=
  answer ≠ .panics ∧ ∀ row, answer = .ok row → ∀ result ∈ results, failedStep result = false

namespace Call

/-- The primary's results of a call that was sent there. -/
def ran (call : Call) (writer : Bool) (o : Surroundings ρ) : List (Option (RowResult ρ)) :=
  if (call.here o).isNone && writer then (o.reply.map ExecuteResults.results).getD [] else []

/-- The call tells from the results whether a step has failed. -/
def Tells : Call → List (Option (RowResult ρ)) → Prop
  | .stmtRun _, results => none ∉ results.takeWhile (!failedStep ·)
  | _, results => ∃ first rest, results = some first :: rest ∧
      (first.isError = true ∨ ∀ result ∈ rest, failedStep result = false)

theorem eachResult_right_iff (results : List (Option (RowResult ρ))) :
    (eachResult results).Right results ↔ none ∉ results.takeWhile (!failedStep ·) := by
  induction results with
  | nil => simp [eachResult, Answer.Right]
  | cons result results ih =>
    match result with
    | none => simp [eachResult, Answer.Right, failedStep]
    | some (.row row) =>
      simpa [eachResult, Answer.Right, failedStep, RowResult.isError] using ih
    | some (.error _ _ _) => simp [eachResult, Answer.Right, failedStep, RowResult.isError]

theorem look_right_iff (call : Call) (results : List (Option (RowResult ρ))) :
    (call.look results).Right results ↔ call.Tells results := by
  cases call with
  | stmtRun p => exact eachResult_right_iff results
  | _ =>
    match results with
    | [] => simp [look, firstResult, Answer.Right, Tells]
    | none :: rest => simp [look, firstResult, Answer.Right, Tells]
    | some (.row row) :: rest =>
      simp [look, firstResult, Answer.Right, Tells, failedStep, RowResult.isError]
    | some (.error _ _ _) :: rest =>
      simp [look, firstResult, Answer.Right, Tells, RowResult.isError]

theorem here_ne_panics {call : Call} {o : Surroundings ρ} : call.here o ≠ some .panics := by
  cases call
  all_goals
    simp only [here]
    repeat' split
    all_goals simp

/-- **When a call reports every failure of a step, and does not panic**: if it is answered by the
primary, the state in the answer is one, and the call tells from the results. -/
theorem right_iff (call : Call) (writer : Bool) (o : Surroundings ρ) :
    (call.perform writer o).Right (call.ran writer o) ↔ ∀ reply, call.here o = none → writer = true → o.reply = some reply →
      reply.state ≠ none ∧ (o.syncs = true → call.Tells reply.results) := by
  cases hhere : call.here o with
  | some answer =>
    have hne : answer ≠ .panics := fun heq => here_ne_panics (hhere.trans (congrArg some heq))
    simp [Answer.Right, perform, ran, hhere, hne]
  | none =>
    cases writer with
    | false => simp [Answer.Right, perform, delegate, ran, hhere]
    | true =>
      match hreply : o.reply with
      | none => simp [Answer.Right, perform, delegate, ran, hhere, hreply]
      | some ⟨results, none⟩ => simp [Answer.Right, perform, delegate, hhere, hreply]
      | some ⟨results, some state⟩ =>
        cases hsyncs : o.syncs with
        | false => simp [Answer.Right, perform, delegate, hhere, hreply, hsyncs]
        | true =>
          simpa [perform, delegate, ran, hhere, hreply, hsyncs] using look_right_iff call results

/-- The drop of a view. -/
def dropView : Piece := .stmt (.sql (.stmt .dropView))

/-- **The failure of a second statement is not reported, and an empty text in a transaction panics.** -/
theorem second_failure_unreported :
    (execute .init [dropView, dropView]).perform true
        ⟨true, true, true, some ⟨[some (.row 0), some (.error 1 1 "no such view")], some .init⟩, true⟩ =
      .ok (some 0) ∧
    (execute .txn []).perform true
        (⟨true, true, true, some ⟨[], some .txn⟩, true⟩ : Surroundings ℕ) = .panics :=
  ⟨rfl, rfl⟩

end Call

end SqlAnywhere.Client
