import SqlAnywhere.Lib.Run
import SqlAnywhere.Server.Auth

/-!
# Replicas that delegate their writes

A connection to a replica runs programs that only read on a local connection, and sends the others to
the primary, which reports with each program the number of the last frame of its log.  What a later
program reads locally should include those frames.

* `makeRequest`, `execute` — a program on the stream to the primary
* `Conn.step` — the calls of the connection, step by step, next to the replicator
* `caughtUp_iff` — when a program that is run locally has all the frames reported
-/

namespace SqlAnywhere.Server

abbrev FrameNo := ℕ

def StmtKind.isReadOnly : StmtKind → Bool
  | .read | .txnEnd | .txnBegin => true
  | _ => false

inductive TxnStatus
  | txn
  | init
  | invalid
  deriving DecidableEq

namespace WriteProxy

/-- The errors that a connection tells apart. -/
inductive Error
  | primaryStreamDisconnect
  | primaryStreamMisuse
  | primaryStreamInterupted
  | rpcQueryError
  /-- the builder of the response refuses something -/
  | builder
  deriving DecidableEq

variable {β ω : Type}

/-- A builder of responses in a state `β`, fed with `ω`; it refuses with `none`. -/
structure Builder (β ω : Type) where
  push : β → ω → Option β
  finish : β → Option FrameNo → Bool → Option β

/-- A step of a response: something for the builder, the end, or nothing known. -/
inductive RespStep (ω : Type)
  | build (op : ω)
  | finish (lastFrameNo : Option FrameNo) (isAutocommit : Bool)
  | unknown

inductive Response (ω : Type)
  | programResp (steps : List (RespStep ω))
  | describeResp
  | error

/-- What the stream from the primary yields. -/
inductive Item (ω : Type)
  | resp (requestId : ℕ) (response : Option (Response ω))
  | status

/-- The callback of `execute` with what it holds: the builder, the status, which it shares with
`execute`, and its copy of the frame number. -/
structure Callback (β : Type) where
  builder : β
  txnStatus : TxnStatus
  newFrameNo : Option FrameNo

def Callback.onFinish (cb : Callback β) (lastFrameNo : Option FrameNo) (isAutocommit : Bool) :
    Callback β :=
  { cb with
    txnStatus := if isAutocommit then .init else .txn
    newFrameNo := lastFrameNo }

/-- `apply_program_resp_to_builder`: whether more responses are to come. -/
def applyProgramResp (B : Builder β ω) :
    List (RespStep ω) → Callback β → Callback β × Except Error Bool
  | [], cb => (cb, .ok true)
  | .build op :: steps, cb =>
    match B.push cb.builder op with
    | none => (cb, .error .builder)
    | some builder => applyProgramResp B steps { cb with builder }
  | .finish lastFrameNo isAutocommit :: _, cb =>
    let cb := cb.onFinish lastFrameNo isAutocommit
    match B.finish cb.builder lastFrameNo isAutocommit with
    | none => (cb, .error .builder)
    | some builder => ({ cb with builder }, .ok false)
  | .unknown :: _, cb => (cb, .error .primaryStreamMisuse)

def Callback.call (B : Builder β ω) (cb : Callback β) :
    Response ω → Callback β × Except Error Bool
  | .programResp steps => applyProgramResp B steps cb
  | .describeResp => (cb, .error .primaryStreamMisuse)
  | .error => (cb, .error .rpcQueryError)

/-- The loop of `make_request` over what the stream yields.  A stream that ends is no error. -/
def makeRequest (B : Builder β ω) (requestId : ℕ) :
    List (Item ω) → Callback β → Callback β × Except Error Unit
  | [], cb => (cb, .ok ())
  | .status :: _, cb => (cb, .error .primaryStreamDisconnect)
  | .resp id response :: items, cb =>
    if requestId < id then (cb, .error .primaryStreamInterupted)
    -- a response to a request that was interrupted
    else if id < requestId then makeRequest B requestId items cb
    else
      match response with
      | none => (cb, .error .primaryStreamMisuse)
      | some response =>
        match cb.call B response with
        | (cb, .error e) => (cb, .error e)
        | (cb, .ok true) => makeRequest B requestId items cb
        | (cb, .ok false) => (cb, .ok ())

/-- `RemoteConnection::execute`.  The callback is a `move` closure: it has a copy of `new_frame_no`, and
the variable that is returned stays what it was. -/
def execute (B : Builder β ω) (requestId : ℕ) (builder : β) (items : List (Item ω)) :
    Except Error (β × TxnStatus × Option FrameNo) :=
  let newFrameNo := none
  match makeRequest B requestId items ⟨builder, .invalid, newFrameNo⟩ with
  | (_, .error e) => .error e
  | (cb, .ok ()) => .ok (cb.builder, cb.txnStatus, newFrameNo)

/-- The frame number that the primary reports for a program. -/
def frameReported (B : Builder β ω) (requestId : ℕ) (builder : β) (items : List (Item ω)) :
    Option FrameNo :=
  (makeRequest B requestId items ⟨builder, .invalid, none⟩).1.newFrameNo

/-! ### The connection -/

/-- Where `execute_program` is.  It holds the lock of the status meanwhile. -/
inductive Phase (β : Type)
  | idle
  /-- in `wait_replication_sync`, for a frame if there is one to wait for -/
  | waiting (frameNo : Option FrameNo) (builder : β)
  /-- on the local connection -/
  | reading (builder : β)
  /-- in `execute_remote` -/
  | remote (builder : β)
  deriving DecidableEq

/-- `WriteProxyConnection`, with the replicator that it waits for. -/
structure Conn (β : Type) where
  state : TxnStatus
  lastWriteFrameNo : Option FrameNo
  /-- the next request id, once there is a connection to the primary -/
  remoteConn : Option ℕ
  primaryReplicationIndex : Option FrameNo
  phase : Phase β
  /-- the last frame that the replica has applied -/
  applied : Option FrameNo
  /-- the replicator is gone, which ends every wait -/
  stopped : Bool
  /-- the frame numbers that the primary has reported; nothing depends on them -/
  reported : List FrameNo

/-- What comes of a program on the local connection. -/
inductive LocalRun (β : Type)
  | failed
  | done
  /-- a transaction is left open; whether the rollback succeeds -/
  | txn (builder : β) (rolledBack : Bool)

inductive Action (β ω : Type)
  | call (pgm : List StmtKind) (replicationIndex : Option FrameNo) (builder : β)
  | waited
  | ran (result : LocalRun β)
  /-- what the primary answers: whether a connection and a request can be made, and the stream -/
  | answer (connects sends : Bool) (items : List (Item ω))
  /-- the caller gives up; whether a connection was made meanwhile -/
  | cancel (connects : Bool)
  | replicate (frameNo : FrameNo)
  | stop

namespace Conn

def new (primaryReplicationIndex applied : Option FrameNo) : Conn β :=
  ⟨.init, none, none, primaryReplicationIndex, .idle, applied, false, []⟩

def shouldProxy (c : Conn β) : Bool :=
  match c.primaryReplicationIndex, c.applied with
  | some _, none => true
  | some primaryIndex, some lastApplied => lastApplied < primaryIndex
  | none, _ => false

def updateLastWriteFrameNo (c : Conn β) (newFrameNo : FrameNo) : Conn β :=
  match c.lastWriteFrameNo with
  | none => { c with lastWriteFrameNo := some newFrameNo }
  | some last => if last < newFrameNo then { c with lastWriteFrameNo := some newFrameNo } else c

/-- `execute_remote` starts. -/
def startRemote (c : Conn β) (builder : β) : Conn β :=
  { c with state := .invalid, phase := .remote builder }

/-- `wait_replication_sync`: the frame to wait for. -/
def frameToWaitFor (c : Conn β) (replicationIndex : Option FrameNo) : Option FrameNo :=
  replicationIndex.or c.lastWriteFrameNo

/-- `wait_for_frame_no` returns. -/
def ready (c : Conn β) : Option FrameNo → Bool
  | none => true
  | some frameNo => c.stopped || c.applied.any (frameNo ≤ ·)

/-- `execute_remote` on a connection with the next request id. -/
def request (B : Builder β ω) (c : Conn β) (requestId : ℕ) (builder : β) (sends : Bool)
    (items : List (Item ω)) : Conn β :=
  let dropped : Conn β := { c with remoteConn := none, state := .init, phase := .idle }
  if sends then
    let reported := (frameReported B requestId builder items).toList ++ c.reported
    match execute B requestId builder items with
    | .error .primaryStreamDisconnect | .error .primaryStreamMisuse => { dropped with reported }
    | .error _ => { c with remoteConn := some (requestId + 1), phase := .idle, reported }
    | .ok (_, newStatus, newFrameNo) =>
      let c : Conn β := { c with
        remoteConn := some (requestId + 1), state := newStatus, phase := .idle, reported }
      newFrameNo.elim c c.updateLastWriteFrameNo
  else dropped

def step (B : Builder β ω) (c : Conn β) : Action β ω → Option (Conn β)
  | .call pgm replicationIndex builder =>
    match c.phase with
    | .idle =>
      if c.shouldProxy then some (c.startRemote builder)
      else if c.state = .init && pgm.all StmtKind.isReadOnly then
        some { c with
          state := .invalid, phase := .waiting (c.frameToWaitFor replicationIndex) builder }
      else some (c.startRemote builder)
    | _ => none
  | .waited =>
    match c.phase with
    | .waiting frameNo builder =>
      if c.ready frameNo then some { c with phase := .reading builder } else none
    | _ => none
  | .ran result =>
    match c.phase with
    | .reading _ =>
      match result with
      | .failed => some { c with phase := .idle }
      | .done => some { c with state := .init, phase := .idle }
      | .txn builder true => some (c.startRemote builder)
      | .txn _ false => some { c with phase := .idle }
    | _ => none
  | .answer connects sends items =>
    match c.phase with
    | .remote builder =>
      match c.remoteConn with
      | some requestId => some (c.request B requestId builder sends items)
      | none =>
        if connects then some (c.request B 0 builder sends items)
        else some { c with phase := .idle }
    | _ => none
  | .cancel connects =>
    match c.phase with
    | .idle => none
    | .remote _ =>
      let requested := if connects then some 1 else none
      some { c with
        remoteConn := c.remoteConn.elim requested (some <| · + 1), phase := .idle }
    | _ => some { c with phase := .idle }
  | .replicate frameNo =>
    if c.applied.all (· ≤ frameNo) then some { c with applied := some frameNo } else none
  | .stop => some { c with stopped := true }

/-- The program would be run on the local connection. -/
def RunsLocally (c : Conn β) (pgm : List StmtKind) : Prop :=
  c.phase = .idle ∧ c.shouldProxy = false ∧ c.state = .init ∧ pgm.all StmtKind.isReadOnly = true

/-- The replica has the frame. -/
def Has (c : Conn β) (frameNo : FrameNo) : Prop := ∃ n, c.applied = some n ∧ frameNo ≤ n

/-- **The replica has every frame that was reported.** -/
def CaughtUp (c : Conn β) : Prop := ∀ frameNo ∈ c.reported, c.Has frameNo

/-! ### What the connection knows of its writes -/

variable {B : Builder β ω} {c c' : Conn β}

theorem execute_frameNo {requestId : ℕ} {builder builder' : β} {items : List (Item ω)}
    {status : TxnStatus} {newFrameNo : Option FrameNo}
    (h : execute B requestId builder items = .ok (builder', status, newFrameNo)) :
    newFrameNo = none := by
  simp only [execute] at h
  split at h
  · cases h
  · cases h
    rfl

theorem request_lastWriteFrameNo (requestId : ℕ) (builder : β) (sends : Bool)
    (items : List (Item ω)) :
    (c.request B requestId builder sends items).lastWriteFrameNo = c.lastWriteFrameNo := by
  simp only [request]
  split
  · split
    · rfl
    · rfl
    · rfl
    · rename_i hexec
      obtain rfl := execute_frameNo hexec
      rfl
  · rfl

/-- **The last write is never noted.** -/
theorem step_lastWriteFrameNo {a : Action β ω} (h : c.step B a = some c') :
    c'.lastWriteFrameNo = c.lastWriteFrameNo := by
  cases a <;> simp only [step] at h
  case call pgm replicationIndex builder =>
    split at h
    · split_ifs at h <;> cases h <;> rfl
    · cases h
  case waited =>
    split at h
    · split_ifs at h
      cases h
      rfl
    · cases h
  case ran result =>
    split at h
    · split at h <;> cases h <;> rfl
    · cases h
  case answer connects sends items =>
    split at h
    · split at h
      · cases h
        exact request_lastWriteFrameNo _ _ _ _
      · split_ifs at h
        · cases h
          exact request_lastWriteFrameNo _ _ _ _
        · cases h
          rfl
    · cases h
  case cancel connects =>
    split at h <;> cases h <;> rfl
  case replicate frameNo =>
    split_ifs at h
    cases h
    rfl
  case stop =>
    cases h
    rfl

/-! ### While a program waits -/

theorem exec_replicate {ns : List FrameNo} (h : Run.exec (step B) c (ns.map .replicate) = some c') :
    ∃ applied, c' = { c with applied } ∧ ∀ n, c.Has n → c'.Has n := by
  induction ns generalizing c with
  | nil =>
    obtain rfl := Option.some.inj h
    exact ⟨c.applied, rfl, fun _ hn => hn⟩
  | cons n ns ih =>
    obtain ⟨c₁, h₁, h₂⟩ := Run.exec_cons_iff.1 h
    simp only [step] at h₁
    split_ifs at h₁ with hle
    cases h₁
    obtain ⟨applied, rfl, hkeep⟩ := ih h₂
    refine ⟨applied, rfl, fun m ⟨k, hk, hm⟩ => hkeep m ⟨n, rfl, ?_⟩⟩
    rw [hk] at hle
    exact Nat.le_trans hm (by simpa using hle)

/-- The frame can be waited for without getting a frame that is neither there nor waited for. -/
theorem exists_ready (c : Conn β) (target : Option FrameNo) :
    ∃ (ns : List FrameNo) (c' : Conn β),
      Run.exec (step B) c (ns.map .replicate) = some c' ∧ c'.ready target = true ∧
      ∀ n, c'.Has n → c.Has n ∨ (c.stopped = false ∧ ∃ i, target = some i ∧ n ≤ i) := by
  by_cases hready : c.ready target = true
  · exact ⟨[], c, rfl, hready, fun n hn => .inl hn⟩
  -- otherwise the frame is still to come, and it is the next one that is applied
  cases target with
  | none => exact absurd rfl hready
  | some i =>
    simp only [ready, Bool.or_eq_true, not_or, Bool.not_eq_true] at hready
    obtain ⟨hstopped, happlied⟩ := hready
    have hle : c.applied.all (· ≤ i) = true := by
      cases hc : c.applied with
      | none => rfl
      | some a =>
        rw [hc] at happlied
        simp only [Option.any_some, decide_eq_false_iff_not] at happlied
        simpa using Nat.le_of_lt (Nat.lt_of_not_le happlied)
    refine ⟨[i], { c with applied := some i }, ?_, ?_, ?_⟩
    · simp only [List.map, Run.exec, step, hle, if_true, Option.bind_some]
    · simp [ready]
    · rintro n ⟨k, hk, hn⟩
      cases hk
      exact .inr ⟨hstopped, i, rfl, hn⟩

/-- **A program that is run locally starts with every frame reported just when the replica has them
already, or the caller asks for them**: whatever frames the replicator applies while the program
waits.  A replicator that stops in the meantime ends the wait without them. -/
theorem caughtUp_iff (primaryReplicationIndex applied : Option FrameNo)
    (as : List (Action β ω)) (hrun : Run.exec (step B) (new primaryReplicationIndex applied) as = some c)
    (pgm : List StmtKind) (replicationIndex : Option FrameNo) (builder : β)
    (hlocal : c.RunsLocally pgm) :
    (∀ (ns : List FrameNo) c', Run.exec (step B) c
        (.call pgm replicationIndex builder :: ns.map .replicate) = some c' →
      (c'.step B .waited).isSome = true → c'.CaughtUp) ↔
    ∀ frameNo ∈ c.reported, c.Has frameNo ∨
      (c.stopped = false ∧ ∃ i, replicationIndex = some i ∧ frameNo ≤ i) := by
  obtain ⟨hidle, hproxy, hinit, hreads⟩ := hlocal
  have hlast : c.lastWriteFrameNo = none :=
    Run.exec_keeps (I := fun c => c.lastWriteFrameNo = none)
      (fun _ _ _ hnone hstep => (step_lastWriteFrameNo hstep).trans hnone) rfl hrun
  -- the call waits for what the caller asks for
  let called : Conn β := { c with state := .invalid, phase := .waiting replicationIndex builder }
  have hcall : c.step B (.call pgm replicationIndex builder) = some called := by
    simp only [step, hidle, hproxy, hinit, hreads, frameToWaitFor, hlast, called]
    cases replicationIndex <;> rfl
  constructor
  · intro h frameNo hmem
    obtain ⟨ns, c', hrun', hready, hhas⟩ := exists_ready (B := B) called replicationIndex
    obtain ⟨applied', rfl, -⟩ := exec_replicate hrun'
    refine hhas frameNo (h ns _ (Run.exec_cons_iff.2 ⟨called, hcall, hrun'⟩) ?_ frameNo hmem)
    simp only [step, called, hready, if_true, Option.isSome_some]
  · intro h ns c' hrun' hwaited frameNo hmem
    obtain ⟨c₁, h₁, hrun'⟩ := Run.exec_cons_iff.1 hrun'
    obtain rfl := Option.some.inj (hcall.symm.trans h₁)
    obtain ⟨applied', rfl, hkeep⟩ := exec_replicate hrun'
    rcases h frameNo hmem with hhas | ⟨hstopped, i, rfl, hle⟩
    · exact hkeep frameNo hhas
    have hready : Conn.ready { called with applied := applied' } (some i) = true := by
      by_contra hno
      simp [step, called, hno] at hwaited
    simp only [ready, called, hstopped, Bool.false_or, Option.any_eq_true,
      decide_eq_true_eq] at hready
    obtain ⟨n, hn, hin⟩ := hready
    exact ⟨n, hn, Nat.le_trans hle hin⟩

/-- A builder that takes everything. -/
def plainBuilder : Builder Unit Unit := ⟨fun _ _ => some (), fun _ _ _ => some ()⟩

/-- A write, for which the primary reports its frame 5. -/
def write : List (Action Unit Unit) :=
  [.call [.write] none (), .answer true true [.resp 0 (some (.programResp [.finish (some 5) true]))]]

/-- The connection to a replica that has frame 2, after the write. -/
def written : Conn Unit := ⟨.init, none, some 1, none, .idle, some 2, false, [5]⟩

theorem caughtUp_after_write :
    Run.exec (step plainBuilder) (new none (some 2)) write = some written ∧
    written.RunsLocally [.read] ∧
    ∀ (ns : List FrameNo) c', Run.exec (step plainBuilder) written
        (.call [.read] (some 5) () :: ns.map .replicate) = some c' →
      (c'.step plainBuilder .waited).isSome = true → c'.CaughtUp := by
  have hlocal : written.RunsLocally [.read] := ⟨rfl, rfl, rfl, rfl⟩
  have hrun : Run.exec (step plainBuilder) (new none (some 2)) write = some written := rfl
  refine ⟨hrun, hlocal, (caughtUp_iff none (some 2) write hrun [.read] (some 5) () hlocal).2 ?_⟩
  intro frameNo hmem
  obtain rfl := List.mem_singleton.1 hmem
  exact .inr ⟨rfl, 5, rfl, Nat.le_refl 5⟩

/-- **A connection does not read its own write**: the next program starts on a replica that has not got
its frame, with no replication index and with a smaller one. -/
theorem read_before_write : ∃ c₁ c₂,
    Run.exec (step plainBuilder) (new none (some 2)) (write ++ [.call [.read] none (), .waited]) =
      some c₁ ∧ c₁.phase = .reading () ∧ ¬ c₁.CaughtUp ∧
    Run.exec (step plainBuilder) (new none (some 2)) (write ++ [.call [.read] (some 1) (), .waited]) =
      some c₂ ∧ c₂.phase = .reading () ∧ ¬ c₂.CaughtUp := by
  have hbehind : ∀ c : Conn Unit, c.reported = [5] → c.applied = some 2 → ¬ c.CaughtUp := by
    intro c hreported happlied h
    obtain ⟨n, hn, hle⟩ := h 5 (by rw [hreported]; exact List.mem_singleton_self 5)
    rw [happlied] at hn
    cases hn
    exact absurd hle (by decide)
  exact ⟨_, _, rfl, rfl, hbehind _ rfl rfl, rfl, rfl, hbehind _ rfl rfl⟩

end Conn

end WriteProxy

end SqlAnywhere.Server
