import Mathlib.Data.Int.Notation
import SqlAnywhere.Client.Routing
import SqlAnywhere.Lib.Run

/-!
# Streams of the HTTP client

An HTTP connection sends statements on a stream, which holds the transaction, and closes the stream
with the same request when it takes the statements to end outside of a transaction.  The server
answers with the result of each statement, with whether the stream was in autocommit mode after
them, and with a baton, unless it has closed the stream.  A text that is prepared is described, and
the rows of a query come over a cursor, by requests of their own that do not ask for the mode.

* `scope`, `closesAfter` — the decision whether to close the stream
* `runBatch` — a batch on the server: it goes on while statements succeed
* `Http.step` — the calls of a connection
* `Http.Right` — what a successful reply must leave
* `Http.streams_kept` — each successful reply in a run of careful calls leaves it
-/

namespace SqlAnywhere.Client

open List Bool

def StmtKind.beginsTxn : StmtKind → Bool
  | .txnBegin | .txnBeginReadOnly => true
  | _ => false

def StmtKind.count : StmtKind → ℤ
  | .txnBegin | .txnBeginReadOnly => 1
  | .txnEnd => -1
  | _ => 0

/-- `TxScopeCounter` after some statements. -/
def scope : List StmtKind → ℤ
  | [] => 0
  | kind :: stmts => kind.count + scope stmts

/-- `execute` and `execute_batch`: the stream is closed after the statements. -/
def closesAfter (isAutocommit : Bool) (stmts : List StmtKind) : Bool :=
  let beginTx := decide (0 < scope stmts)
  let endTx := decide (scope stmts < 0)
  let inTxScope := !isAutocommit || beginTx
  !inTxScope || endTx

/-- What the server says of a statement. -/
inductive Result
  | ok
  /-- it succeeds and ends the transaction, as the `RELEASE` of an outermost savepoint can -/
  | okEnding
  | failed
  /-- it fails and rolls the transaction back -/
  | failedEnding
  deriving DecidableEq

def Result.isOk : Result → Bool
  | .ok | .okEnding => true
  | .failed | .failedEnding => false

/-- A statement on a stream, in a transaction or not; `none`: it cannot have this result there. -/
def stmtAfter : Bool → StmtKind → Result → Option Bool
  | false, .txnBegin, .ok | false, .txnBeginReadOnly, .ok => some true
  | true, .txnBegin, .ok | true, .txnBeginReadOnly, .ok => none
  | true, .txnEnd, .ok => some false
  | false, .txnEnd, .ok => none
  | _, .savepoint, .ok => some true
  | inTxn, _, .ok => some inTxn
  | true, .release, .okEnding => some false
  | _, _, .okEnding => none
  | inTxn, _, .failed => some inTxn
  | _, _, .failedEnding => some false

/-- A batch, in which each statement is run if the one before has succeeded. -/
def runBatch : Bool → List StmtKind → List Result → Option Bool
  | inTxn, [], [] => some inTxn
  | inTxn, kind :: stmts, res :: results =>
    match stmtAfter inTxn kind res with
    | none => none
    | some inTxn' =>
      if res.isOk then runBatch inTxn' stmts results
      else if results.isEmpty then some inTxn' else none
  | _, _, _ => none

/-- A prepared statement, with what was decided when it was prepared. -/
structure HttpStatement where
  kind : StmtKind
  closeStream : Bool
  deriving DecidableEq

/-- The answer to a request. -/
inductive Reply
  /-- with a baton, if the server has not closed the stream -/
  | success (results : List Result) (baton : Bool)
  /-- there is none, or an error; whether a transaction is open on the stream then -/
  | failure (inTxn : Bool)

/-- A connection with its stream. -/
structure Http where
  isAutocommit : Bool
  /-- a transaction is open on the stream -/
  inTxn : Bool
  prepared : List HttpStatement
  deriving DecidableEq

inductive HttpAction
  | execute (kind : StmtKind) (reply : Reply)
  | executeBatch (stmts : List StmtKind) (reply : Reply)
  | prepare (kind : StmtKind) (reply : Reply)
  | run (i : ℕ) (reply : Reply)
  | query (i : ℕ) (reply : Reply)

namespace Http

def new : Http := ⟨true, false, []⟩

/-- `Statement::new` -/
def prepare (h : Http) (kind : StmtKind) : HttpStatement :=
  let inTxScope := !h.isAutocommit || kind.beginsTxn
  let closeStream := !inTxScope || kind = .txnEnd
  ⟨kind, closeStream⟩

/-- What a call sends: the statements, whether the stream is closed after them, and the reply. -/
def sends (h : Http) : HttpAction → Option (List StmtKind × Bool × Reply)
  | .execute kind reply => some ([kind], closesAfter h.isAutocommit [kind], reply)
  | .executeBatch stmts reply => some (stmts, closesAfter h.isAutocommit stmts, reply)
  | .prepare _ reply => some ([], false, reply)
  | .run i reply => h.prepared[i]?.map fun p => ([p.kind], p.closeStream, reply)
  | .query i reply => h.prepared[i]?.map fun p => ([p.kind], false, reply)

/-- The request asks whether the stream is in autocommit mode. -/
def asks : HttpAction → Bool
  | .prepare .. | .query .. => false
  | _ => true

/-- `batch_inner`, or another request: the flag is taken from the reply, whether the stream is
closed or not.  A stream without a baton is not used any more. -/
def exchange (h : Http) (asks : Bool) (stmts : List StmtKind) (closeStream : Bool) :
    Reply → Option Http
  | .failure inTxn => some { h with inTxn }
  | .success results baton => (runBatch h.inTxn stmts results).map fun inTxn =>
    { h with
      isAutocommit := if asks then !inTxn else h.isAutocommit
      inTxn := !closeStream && baton && inTxn }

/-- The statements that are prepared after the call. -/
def preparedAfter (h : Http) : HttpAction → List HttpStatement
  | .prepare kind (.success ..) => h.prepared ++ [h.prepare kind]
  | _ => h.prepared

def step (h : Http) (a : HttpAction) : Option Http :=
  (h.sends a).bind fun (stmts, closeStream, reply) =>
    { h with prepared := h.preparedAfter a }.exchange (asks a) stmts closeStream reply

/-- **A successful reply leaves things right**: the stream was closed without an open transaction
only, and the flag says what is open on the stream that is used next. -/
def Right (h : Http) (a : HttpAction) : Prop :=
  ∀ stmts closeStream results baton h',
    h.sends a = some (stmts, closeStream, .success results baton) → h.step a = some h' →
    (closeStream = true → runBatch h.inTxn stmts results = some false) ∧
      h'.isAutocommit = !h'.inTxn

/-! ### What is asked of the calls -/

end Http

/-- What is asked of the statements of a batch after which the stream is closed: there is no savepoint
outside of a transaction, and one that fails inside of a transaction leaves no `BEGIN`, `COMMIT` or
`ROLLBACK` undone. -/
def CarefulBatch : Bool → List StmtKind → List Result → Prop
  | inTxn, kind :: stmts, res :: results =>
    (kind = .savepoint → inTxn = true) ∧
    (res = .failed → inTxn = true → ∀ kind' ∈ kind :: stmts, kind'.count = 0) ∧
    ∀ inTxn', stmtAfter inTxn kind res = some inTxn' → CarefulBatch inTxn' stmts results
  | _, _, _ => True

namespace Http

/-- What is asked of a call.  A statement that closes the stream because it was prepared outside of
a transaction is run outside of one; the server does not close a stream with an open transaction; a
query over a cursor, and a request that fails, leave the transaction as it was. -/
def Careful (h : Http) (a : HttpAction) : Prop :=
  ∀ stmts closeStream reply, h.sends a = some (stmts, closeStream, reply) →
    match reply with
    | .failure inTxn => inTxn = h.inTxn
    | .success results baton =>
      (closeStream = true → CarefulBatch h.inTxn stmts results ∧
        ∀ i reply', a = .run i reply' → h.inTxn = true → stmts = [.txnEnd]) ∧
      (closeStream = false → baton = false → runBatch h.inTxn stmts results = some false) ∧
      ∀ i reply', a = .query i reply' → runBatch h.inTxn stmts results = some h.inTxn

structure Inv (h : Http) : Prop where
  flag : h.isAutocommit = !h.inTxn
  prepared : ∀ p ∈ h.prepared, p.closeStream = true → p.kind.beginsTxn = false

end Http

/-! ### Batches -/

/-- A transaction counts as one. -/
def depth (inTxn : Bool) : ℤ := if inTxn then 1 else 0

theorem scope_eq_zero {stmts : List StmtKind} (h : ∀ kind ∈ stmts, kind.count = 0) :
    scope stmts = 0 := by
  induction stmts with
  | nil => rfl
  | cons kind stmts ih =>
    rw [scope, h kind mem_cons_self, ih fun kind' h' => h kind' (mem_cons_of_mem kind h')]
    rfl

variable {inTxn inTxn' : Bool} {kind : StmtKind} {res : Result} {stmts : List StmtKind}
  {results : List Result}

theorem depth_stmtAfter (h : stmtAfter inTxn kind res = some inTxn') (hok : res.isOk = true)
    (hsavepoint : kind = .savepoint → inTxn = true) : depth inTxn' ≤ depth inTxn + kind.count := by
  cases res with
  | failed | failedEnding => cases hok
  | okEnding =>
    cases inTxn with
    | false => cases kind <;> cases h
    | true => cases kind <;> cases h; decide
  | ok =>
    cases kind with
    | savepoint =>
      rw [hsavepoint rfl] at h ⊢
      cases h
      decide
    | txnBegin | txnBeginReadOnly | txnEnd =>
      cases inTxn <;> cases h
      decide
    | _ =>
      cases inTxn <;> cases h <;> decide

theorem stmtAfter_failed (h : stmtAfter inTxn kind res = some true) (hok : res.isOk = false) :
    res = .failed ∧ inTxn = true := by
  cases res with
  | ok | okEnding => cases hok
  | failed =>
    refine ⟨rfl, ?_⟩
    cases inTxn with
    | true => rfl
    | false => cases kind <;> cases h
  | failedEnding => cases inTxn <;> cases kind <;> cases h

/-- **A batch that ends in a transaction counts up to one.** -/
theorem scope_of_runBatch (hc : CarefulBatch inTxn stmts results)
    (h : runBatch inTxn stmts results = some true) : 1 ≤ depth inTxn + scope stmts := by
  induction stmts generalizing inTxn results with
  | nil =>
    cases results with
    | nil =>
      cases h
      decide
    | cons res results => cases h
  | cons kind stmts ih =>
    cases results with
    | nil => cases h
    | cons res results =>
      obtain ⟨hsavepoint, hfailed, hrest⟩ := hc
      simp only [runBatch] at h
      cases hstmt : stmtAfter inTxn kind res with
      | none =>
        simp [hstmt] at h
      | some inTxn' =>
        simp only [hstmt] at h
        split_ifs at h with hok hempty
        · have hnext := ih (hrest inTxn' hstmt) h
          have hdepth := depth_stmtAfter hstmt hok hsavepoint
          simp only [scope]
          omega
        · -- nothing that counts is left undone
          cases h
          obtain ⟨rfl, rfl⟩ := stmtAfter_failed hstmt (by simpa using hok)
          rw [scope_eq_zero (hfailed rfl rfl)]
          decide

theorem closesAfter_of_runBatch (hc : CarefulBatch inTxn stmts results)
    (h : runBatch inTxn stmts results = some true) : closesAfter (!inTxn) stmts = false := by
  have hscope := scope_of_runBatch hc h
  cases inTxn with
  | true =>
    have hend : ¬ scope stmts < 0 := by
      simp only [depth, if_true] at hscope
      omega
    simp [closesAfter, hend]
  | false =>
    have hbegin : 0 < scope stmts := by
      simp only [depth, false_eq_true, if_false] at hscope
      omega
    have hend : ¬ scope stmts < 0 := by omega
    simp [closesAfter, hbegin, hend]

namespace Http

variable {h h' : Http} {a : HttpAction} {closeStream baton : Bool}

/-! ### Calls -/

theorem Inv.closed (hinv : h.Inv) (hc : h.Careful a)
    (hsends : h.sends a = some (stmts, closeStream, .success results baton))
    (hrun : runBatch h.inTxn stmts results = some inTxn) (hclose : closeStream = true) :
    inTxn = false := by
  obtain ⟨hbatch, hprepared⟩ := (hc _ _ _ hsends).1 hclose
  by_contra hopen
  obtain rfl : inTxn = true := by simpa using hopen
  have hnot := closesAfter_of_runBatch hbatch hrun
  rw [← hinv.flag] at hnot
  cases a with
  | execute | executeBatch =>
    cases hsends
    exact absurd (hnot.symm.trans hclose) (by decide)
  | prepare kind reply =>
    cases hsends
    cases hclose
  | query i reply =>
    obtain ⟨p, -, heq⟩ := Option.map_eq_some_iff.1 hsends
    cases heq
    cases hclose
  | run i reply =>
    obtain ⟨p, hp, heq⟩ := Option.map_eq_some_iff.1 hsends
    cases heq
    have hbegins := hinv.prepared p (mem_of_getElem? hp) hclose
    have hscope := scope_of_runBatch hbatch hrun
    cases htxn : h.inTxn with
    | true =>
      rw [hprepared i _ rfl htxn, htxn] at hscope
      exact absurd hscope (by decide)
    | false =>
      rw [htxn] at hscope
      cases hkind : p.kind <;> rw [hkind] at hscope hbegins <;>
        first | exact absurd hscope (by decide) | cases hbegins

/-- A request that does not ask for the mode leaves the transaction as it was. -/
theorem runBatch_of_not_asks (hc : h.Careful a) (hasks : asks a = false)
    (hsends : h.sends a = some (stmts, closeStream, .success results baton))
    (hrun : runBatch h.inTxn stmts results = some inTxn) : inTxn = h.inTxn := by
  cases a with
  | execute | executeBatch | run => cases hasks
  | prepare kind reply =>
    cases hsends
    cases results with
    | nil => exact (Option.some.inj hrun).symm
    | cons => cases hrun
  | query i reply => exact Option.some.inj (hrun.symm.trans ((hc _ _ _ hsends).2.2 i reply rfl))

/-- The flag says what is open on the stream that is used next. -/
theorem Inv.exchange_flag (hinv : h.Inv) (hc : h.Careful a) {reply : Reply}
    (hsends : h.sends a = some (stmts, closeStream, reply)) {prepared : List HttpStatement}
    (hstep : { h with prepared := prepared }.exchange (asks a) stmts closeStream reply = some h') :
    h'.isAutocommit = !h'.inTxn ∧ h'.prepared = prepared := by
  cases reply with
  | failure inTxn =>
    cases hstep
    obtain rfl : inTxn = h.inTxn := hc _ _ _ hsends
    exact ⟨hinv.flag, rfl⟩
  | success results baton =>
    obtain ⟨inTxn, hrun, rfl⟩ := Option.map_eq_some_iff.1 hstep
    refine ⟨?_, rfl⟩
    -- what is left of a stream that is gone is not a transaction
    have hopen : (!closeStream && baton && inTxn) = inTxn := by
      cases hclose : closeStream with
      | true =>
        rw [hinv.closed hc hsends hrun hclose]
        rfl
      | false =>
        cases hbaton : baton with
        | true => rfl
        | false =>
          have hnone := (hc _ _ _ hsends).2.1 hclose hbaton
          obtain rfl : inTxn = false := Option.some.inj (hrun.symm.trans hnone)
          rfl
    rw [hopen]
    cases hasks : asks a with
    | true => rfl
    | false =>
      rw [runBatch_of_not_asks hc hasks hsends hrun]
      exact hinv.flag

theorem step_iff {reply : Reply} (hsends : h.sends a = some (stmts, closeStream, reply)) :
    h.step a = some h' ↔ { h with prepared := h.preparedAfter a }.exchange (asks a) stmts closeStream
      reply = some h' := by
  rw [Http.step, hsends, Option.bind_some]

theorem Inv.step (hinv : h.Inv) (hc : h.Careful a) (hstep : h.step a = some h') : h'.Inv := by
  cases hsends : h.sends a with
  | none =>
    rw [Http.step, hsends] at hstep
    cases hstep
  | some sent =>
    obtain ⟨hflag, hprepared⟩ := hinv.exchange_flag hc hsends ((step_iff hsends).1 hstep)
    refine ⟨hflag, fun p hp hclose => ?_⟩
    rw [hprepared] at hp
    cases a with
    | execute | executeBatch | run | query => exact hinv.prepared p hp hclose
    | prepare kind reply =>
      cases reply with
      | failure => exact hinv.prepared p hp hclose
      | success =>
        rcases mem_append.1 hp with hold | hnew
        · exact hinv.prepared p hold hclose
        · obtain rfl := mem_singleton.1 hnew
          -- what begins a transaction does not close the stream
          cases kind <;> first | rfl | simp [Http.prepare, StmtKind.beginsTxn] at hclose

theorem Inv.right (hinv : h.Inv) (hc : h.Careful a) : h.Right a := by
  intro stmts closeStream results baton h' hsends hstep
  refine ⟨fun hclose => ?_, (hinv.step hc hstep).flag⟩
  obtain ⟨inTxn, hrun, -⟩ := Option.map_eq_some_iff.1 ((step_iff hsends).1 hstep)
  have hrun : runBatch h.inTxn stmts results = some inTxn := hrun
  rw [hrun, hinv.closed hc hsends hrun hclose]

/-- **The client never closes a stream with an open transaction, and knows what is open**, in every
run of careful calls. -/
theorem streams_kept (as : List HttpAction) (hcareful : Run.Along step Careful new as) :
    Run.Along step Right new as :=
  Run.along_imp (I := Inv) (fun _ _ hinv hc => hinv.right hc)
    (fun _ _ _ hinv hc hstep => hinv.step hc hstep) ⟨rfl, nofun⟩ hcareful

/-- A transaction with a query in it that was prepared before, and a failure. -/
def oneTransaction : List HttpAction :=
  [.execute .txnBegin (.success [.ok] true), .prepare .read (.success [] true),
    .run 0 (.success [.ok] true), .query 0 (.success [.ok] true),
    .execute .write (.success [.failed] true),
    .executeBatch [.write, .txnEnd] (.success [.ok, .ok] false)]

theorem streams_kept_oneTransaction :
    Run.Along step Right new oneTransaction ∧
      Run.exec step new oneTransaction = some ⟨true, false, [⟨.read, false⟩]⟩ := by
  refine ⟨streams_kept oneTransaction ?_, rfl⟩
  simp [oneTransaction, Run.Along, Careful, CarefulBatch, step, sends, new, prepare, closesAfter,
    scope, StmtKind.count, exchange, asks, preparedAfter, runBatch, stmtAfter, Result.isOk,
    StmtKind.beginsTxn]

/-- **The client closes its stream in a transaction**: with a query that was prepared before the
transaction began, and with a batch whose `INSERT` fails.  The flag then says that a transaction is
open, and there is none on the next stream, as it does after a `BEGIN` whose reply has no baton. -/
theorem closed_in_transaction :
    Run.exec step new [.prepare .read (.success [] true), .execute .txnBegin (.success [.ok] true),
      .run 0 (.success [.ok] true)] = some ⟨false, false, [⟨.read, true⟩]⟩ ∧
    ¬ Right ⟨false, true, [⟨.read, true⟩]⟩ (.run 0 (.success [.ok] true)) ∧
    Run.exec step new [.executeBatch [.txnBegin, .write, .txnEnd] (.success [.ok, .failed] true)] =
      some ⟨false, false, []⟩ ∧
    ¬ Right new (.executeBatch [.txnBegin, .write, .txnEnd] (.success [.ok, .failed] true)) ∧
    ¬ Right new (.execute .txnBegin (.success [.ok] false)) := by
  refine ⟨rfl, fun h => ?_, rfl, fun h => ?_, fun h => ?_⟩
  · cases (h _ _ _ _ _ rfl rfl).1 rfl
  · cases (h _ _ _ _ _ rfl rfl).1 rfl
  · cases (h _ _ _ _ _ rfl rfl).2

end Http

end SqlAnywhere.Client
