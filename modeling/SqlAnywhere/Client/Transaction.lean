import Mathlib.Data.List.Forall2
import SqlAnywhere.Lib.Run

/-!
# Transactions of the HTTP client

`hrana/transaction.rs` over `hrana/stream.rs`: the baton of a reply names the stream in the next
request.  A reply without a baton says that the stream is closed, and a commit that finds no baton
sends nothing.

* `sendRequests` — requests on the stream, and the reply
* `open_`, `commit` — the ends of a transaction; `step` — the other calls on its stream
* `Allowed` — what the specification lets a server do
* `committed_where_begun` — a commit is executed where the transaction was begun, if no call in between
  leaves the client without a baton
-/

namespace SqlAnywhere.Client.HttpTransaction

open List

inductive Request
  | execute (sql : String)
  | batch (stmts : List String)
  | sequence (sql : String)
  | getAutocommit
  | close
  /-- descriptions and stored texts -/
  | other

inductive Response
  | execute
  /-- the steps that have a result, and the errors of the steps -/
  | batch (stepResults : List Bool) (stepErrors : List (Option String))
  | getAutocommit (isAutocommit : Bool)
  | close
  | other

inductive StreamResult
  | ok (response : Response)
  | error (error : String)
  | none

inductive Error
  | http
  | unexpectedResponse
  | streamError (error : String)
  /-- no result has been returned -/
  | noResult

/-- What the server does with some requests: it runs them on a stream, and answers, if the answer
arrives, with the baton of that stream or with none if it has closed it. -/
structure Served (β : Type*) where
  stream : ℕ
  results : List StreamResult
  baton : Option β
  arrives : Bool

/-- The stream of a connection, and the statements that the server has executed on its streams. -/
structure Stream (β : Type*) where
  baton : Option β
  executed : List (ℕ × String)

/-- The statements of a request that were executed. -/
def Request.performed : Request → StreamResult → List String
  | .execute sql, .ok _ | .sequence sql, .ok _ => [sql]
  | .batch stmts, .ok (.batch stepResults _) => ((stmts.zip stepResults).filter Prod.snd).map Prod.fst
  | _, _ => []

def StreamResult.response : StreamResult → Except Error Response
  | .ok response => .ok response
  | .error e => .error (.streamError e)
  | .none => .ok .close

inductive TransactionBehavior
  | deferred
  | immediate
  | exclusive
  | readOnly

def TransactionBehavior.beginStmt : TransactionBehavior → String
  | .deferred => "BEGIN DEFERRED"
  | .immediate => "BEGIN IMMEDIATE"
  | .exclusive => "BEGIN EXCLUSIVE"
  | .readOnly => "BEGIN READONLY"

variable {β : Type*} (s : Stream β) (served : Option (Served β))

def Stream.serve (requests : List Request) (r : Served β) : Stream β :=
  let stmts := (zipWith Request.performed requests r.results).flatten
  { s with executed := s.executed ++ stmts.map fun sql => (r.stream, sql) }

/-- A request and its reply; the server may also do nothing, as with a baton that has expired. -/
def Stream.post (requests : List Request) : Stream β × Option (List StreamResult) :=
  match served with
  | none => (s, none)
  | some r =>
    if r.arrives then ({ s.serve requests r with baton := r.baton }, some r.results)
    else (s.serve requests r, none)

def sendRequests (requests : List Request) : Stream β × Except Error (List Response) :=
  match s.post served requests with
  | (s, none) => (s, .error .http)
  | (s, some results) =>
    (s, if results.isEmpty then .error .unexpectedResponse
      else if results.length ≠ requests.length then .error .unexpectedResponse
      else results.mapM StreamResult.response)

def finalize (req : Request) : Stream β × Except Error Bool :=
  if s.baton.isNone then (s, .ok false) else
  match sendRequests s served [req, .getAutocommit, .close] with
  | (s, .ok [_, .getAutocommit _, _]) => ({ s with baton := none }, .ok true)
  | (s, .ok _) => (s, .error .unexpectedResponse)
  | (s, .error e) => (s, .error e)

def batchInner (stmts : List String) (closeStream : Bool) :
    Stream β × Except Error (List Bool × List (Option String)) :=
  match sendRequests s served
    ([.batch stmts, .getAutocommit] ++ if closeStream then [.close] else []) with
  | (s, .error e) => (s, .error e)
  | (s, .ok responses) =>
    (if closeStream then { s with baton := none } else s, match responses with
    | .batch stepResults stepErrors :: .getAutocommit _ :: _ => .ok (stepResults, stepErrors)
    | _ => .error .unexpectedResponse)

def executeInner (sql : String) (closeStream : Bool) : Stream β × Except Error Unit :=
  match batchInner s served [sql] closeStream with
  | (s, .error e) => (s, .error e)
  | (s, .ok (stepResults, stepErrors)) => (s, match stepErrors.getLast?, stepResults.getLast? with
    | some (some e), _ => .error (.streamError e)
    | _, some true => .ok ()
    | _, _ => .error .noResult)

def open_ (behavior : TransactionBehavior) : Stream β × Except Error Unit :=
  executeInner s served behavior.beginStmt false

def commit : Stream β × Except Error Unit :=
  let (s, result) := finalize s served (.execute "COMMIT")
  (s, result.map fun _ => ())

/-- What the calls of a connection do with the baton of their stream. -/
inductive Call (β : Type*)
  /-- `send_requests` and `open_cursor` -/
  | send (requests : List Request) (served : Option (Served β))
  | reset

def step (s : Stream β) : Call β → Option (Stream β)
  | .send requests served => some (s.post served requests).1
  | .reset => some { s with baton := none }

/-- The answers that the specification has for a request. -/
def Answers : Request → StreamResult → Prop
  | _, .error _ | .execute _, .ok .execute | .sequence _, .ok .other => True
  | .getAutocommit, .ok (.getAutocommit _) | .close, .ok .close | .other, .ok .other => True
  | .batch stmts, .ok (.batch stepResults _) => stepResults.length = stmts.length
  | _, _ => False

/-- What the specification lets a server do, whose batons are names of streams. -/
structure Allowed (names : β → ℕ) (requests : List Request) (r : Served β) : Prop where
  stream : ∀ b, s.baton = some b → r.stream = names b
  baton : ∀ b, r.baton = some b → names b = r.stream
  answers : Forall₂ Answers requests r.results

/-- A call that the server answers in such a way, and after which the client has a baton. -/
def Kept (names : β → ℕ) (s : Stream β) : Call β → Prop
  | .send requests served =>
    (∀ r ∈ served, Allowed s names requests r) ∧ (s.post served requests).1.baton ≠ none
  | .reset => False

variable {s served} {s' : Stream β} {requests : List Request} {responses : List Response}
  {results : List StreamResult} {names : β → ℕ} {c : Call β} {stream : ℕ}

/-- All results are responses where none is an error. -/
theorem eq_map_ok (h : Forall₂ Answers requests results)
    (hok : results.mapM StreamResult.response = .ok responses) : results = responses.map .ok := by
  induction h generalizing responses with
  | nil =>
    cases hok
    rfl
  | @cons request result requests results hanswer h ih =>
    rw [mapM_cons] at hok
    cases result with
    | none => cases request <;> exact hanswer.elim
    | error e => cases hok
    | ok response =>
      generalize hrest : results.mapM StreamResult.response = rest at hok
      cases rest with
      | error e => cases hok
      | ok rest =>
        cases hok
        rw [ih hrest, map_cons]

theorem sendRequests_ok (hallowed : ∀ r ∈ served, Allowed s names requests r)
    (h : sendRequests s served requests = (s', .ok responses)) :
    ∃ r ∈ served, s' = { s.serve requests r with baton := r.baton } ∧
      r.results = responses.map .ok := by
  cases served with
  | none => cases h
  | some r =>
    simp only [sendRequests, Stream.post] at h
    cases harrives : r.arrives with
    | false =>
      rw [harrives] at h
      cases h
    | true =>
      rw [harrives] at h
      obtain ⟨rfl, hok⟩ := Prod.mk.inj h
      split_ifs at hok
      exact ⟨r, rfl, rfl, eq_map_ok (hallowed r rfl).answers hok⟩

/-- The client has a baton of a stream. -/
def Stream.On (s : Stream β) (names : β → ℕ) (stream : ℕ) : Prop :=
  ∃ b, s.baton = some b ∧ names b = stream

theorem Stream.On.step (h : s.On names stream) (hkept : Kept names s c)
    (hstep : step s c = some s') : s'.On names stream := by
  obtain ⟨b, hb, rfl⟩ := h
  cases c with
  | reset => exact hkept.elim
  | send requests served =>
    obtain ⟨hallowed, hne⟩ := hkept
    cases hstep
    unfold Stream.post at hne ⊢
    cases served with
    | none => exact ⟨b, hb, rfl⟩
    | some r =>
      have hallowed := hallowed r rfl
      dsimp only at hne ⊢
      split_ifs at hne ⊢
      · obtain ⟨b', hb'⟩ := Option.ne_none_iff_exists'.1 hne
        exact ⟨b', hb', (hallowed.baton b' hb').trans (hallowed.stream b hb)⟩
      · exact ⟨b, hb, rfl⟩

theorem open_ok {behavior : TransactionBehavior}
    (hallowed : ∀ r ∈ served, Allowed s names [.batch [behavior.beginStmt], .getAutocommit] r)
    (h : open_ s served behavior = (s', .ok ())) (hne : s'.baton ≠ none) :
    ∃ stream, s'.On names stream ∧ s'.executed = s.executed ++ [(stream, behavior.beginStmt)] := by
  unfold open_ executeInner batchInner at h
  generalize hsent : sendRequests s served _ = sent at h
  obtain ⟨t, e | responses⟩ := sent
  · cases h
  obtain ⟨r, hr, rfl, hresults⟩ := sendRequests_ok hallowed hsent
  have hanswers := (hallowed r hr).answers
  rw [hresults] at hanswers
  obtain _ | ⟨_ | ⟨stepResults, stepErrors⟩ | _ | _ | _, _ | ⟨_ | _ | a | _ | _, rest⟩⟩ := responses
  all_goals try cases h
  obtain ⟨hsteps, -⟩ := forall₂_cons.1 hanswers
  obtain ⟨result, rfl⟩ := length_eq_one_iff.1 hsteps
  obtain ⟨rfl, hlast⟩ := Prod.mk.inj h
  obtain rfl : result = true := by
    cases result with
    | true => rfl
    | false => split at hlast <;> simp_all
  obtain ⟨b, hb⟩ := Option.ne_none_iff_exists'.1 hne
  refine ⟨r.stream, ⟨b, hb, (hallowed r hr).baton b hb⟩, ?_⟩
  show s.executed ++ _ = _
  rw [hresults]
  rfl

/-- **A commit is executed on the stream on which its transaction was begun**, in every run in which
each call between them leaves the client with a baton. -/
theorem committed_where_begun {s₀ s₁ s₂ s₃ : Stream β} {served₀ : Option (Served β)}
    {behavior : TransactionBehavior} {calls : List (Call β)}
    (hbegin : ∀ r ∈ served₀, Allowed s₀ names [.batch [behavior.beginStmt], .getAutocommit] r)
    (hopen : open_ s₀ served₀ behavior = (s₁, .ok ())) (hne : s₁.baton ≠ none)
    (hkept : Run.Along step (Kept names) s₁ calls) (hrun : Run.exec step s₁ calls = some s₂)
    (hallowed : ∀ r ∈ served, Allowed s₂ names [.execute "COMMIT", .getAutocommit, .close] r)
    (hcommit : commit s₂ served = (s₃, .ok ())) :
    ∃ stream, s₁.executed = s₀.executed ++ [(stream, behavior.beginStmt)] ∧
      s₃.executed = s₂.executed ++ [(stream, "COMMIT")] := by
  obtain ⟨stream, hon, hbegun⟩ := open_ok hbegin hopen hne
  obtain ⟨b, hb, rfl⟩ : s₂.On names stream :=
    Run.exec_invariant (I := fun s => s.On names stream)
      (fun _ _ _ h hkept hstep => h.step hkept hstep) hon hkept hrun
  refine ⟨names b, hbegun, ?_⟩
  unfold commit finalize at hcommit
  rw [hb, if_neg (by simp)] at hcommit
  generalize hsent : sendRequests s₂ served _ = sent at hcommit
  obtain ⟨t, e | responses⟩ := sent
  · cases hcommit
  obtain ⟨r, hr, rfl, hresults⟩ := sendRequests_ok hallowed hsent
  obtain _ | ⟨p, _ | ⟨_ | _ | a | _ | _, _ | ⟨q, _ | ⟨p', rest⟩⟩⟩⟩ := responses
  all_goals try cases hcommit
  show s₂.executed ++ _ = _
  rw [hresults, (hallowed r hr).stream b hb]
  rfl

section Example

/-- A server that runs everything on its stream `0`. -/
def serves (responses : List Response) (baton : Option ℕ) : Option (Served ℕ) :=
  some ⟨0, responses.map .ok, baton, true⟩

theorem serves_allowed (s : Stream ℕ) {baton : Option ℕ}
    (h : Forall₂ Answers requests (responses.map .ok)) :
    ∀ r ∈ serves responses baton, Allowed s (fun _ => 0) requests r := by
  rintro r ⟨⟩
  exact ⟨fun _ _ => rfl, fun _ _ => rfl, h⟩

def beginning : Option (Served ℕ) :=
  serves [.batch [true] [none], .getAutocommit false] (some 1)

def begun : Stream ℕ := (open_ ⟨none, []⟩ beginning .deferred).1

def committing : Option (Served ℕ) := serves [.execute, .getAutocommit true, .close] none

def inserted : Stream ℕ := (begun.post (serves [.execute] (some 2)) [.execute "INSERT"]).1

theorem committed_where_begun_inserted :
    ∃ stream, begun.executed = [] ++ [(stream, "BEGIN DEFERRED")] ∧
      (commit inserted committing).1.executed = inserted.executed ++ [(stream, "COMMIT")] := by
  have hkept : Run.Along step (Kept fun _ => 0) begun
      [.send [.execute "INSERT"] (serves [.execute] (some 2))] :=
    ⟨⟨serves_allowed _ (by simp [Answers]), nofun⟩, fun _ _ => trivial⟩
  have hopen : open_ ⟨none, []⟩ beginning .deferred = (begun, .ok ()) := rfl
  have hcommit : commit inserted committing = ((commit inserted committing).1, .ok ()) := rfl
  refine committed_where_begun (serves_allowed _ ?_) hopen nofun hkept rfl
    (serves_allowed _ ?_) hcommit
  all_goals simp [Answers]

/-- The reply to a `ROLLBACK` that closes the stream. -/
def closing : Option (Served ℕ) :=
  serves [.batch [true] [none], .getAutocommit true, .close] none

/-- The transaction is rolled back by a statement, which closes the stream as any statement does that
ends a transaction; the commit then sends nothing, and succeeds. -/
theorem commit_not_sent :
    (∀ r ∈ closing, Allowed begun (fun _ => 0) [.batch ["ROLLBACK"], .getAutocommit, .close] r) ∧
      batchInner begun closing ["ROLLBACK"] true =
        (⟨none, [(0, "BEGIN DEFERRED"), (0, "ROLLBACK")]⟩, .ok ([true], [none])) ∧
      commit (⟨none, [(0, "BEGIN DEFERRED"), (0, "ROLLBACK")]⟩ : Stream ℕ) none =
        (⟨none, [(0, "BEGIN DEFERRED"), (0, "ROLLBACK")]⟩, .ok ()) :=
  ⟨serves_allowed _ (by simp [Answers]), rfl, rfl⟩

end Example

end SqlAnywhere.Client.HttpTransaction
