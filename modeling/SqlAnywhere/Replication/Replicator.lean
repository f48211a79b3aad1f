import SqlAnywhere.Replication.LoadSnapshot

/-!
# The replicator of an embedded replica

A replica follows the log of its primary.  It shakes hands, asks for the frames after the last ones
that it received, and gives them to the injector; a snapshot takes their place when the log does not
have them any more.  The number of each commit is recorded in a meta file, after the commit itself.

* `RemoteClient` — what the replica remembers of its primary, and the batch that a handshake prefetches
* `Sys`, `Action`, `step` — the replicator at work, the log of the primary, and restarts
* `Honest` — what the primary answers is what its log has
-/

namespace SqlAnywhere.Replication.Replicator

open Server.ReplicationLog Server.ForkLog

variable {α : Type*}

/-- The errors of the replicator, as far as what it does next depends on them. -/
inductive Error
  | needSnapshot
  | noHandshake
  | other
  deriving DecidableEq

/-- `ReplicatorState`; `Exit` is left again before `replicate` returns. -/
inductive State
  | needFrames
  | needHandshake
  | needSnapshot
  deriving DecidableEq

/-- `WalIndexMeta::current_frame_no`, where `FrameNo::MAX` is `none`. -/
def currentFrameNo (data : Option (Option ℕ)) : Option ℕ := data.join

/-- `next_offset`, the number of the frames up to a number. -/
def nextOffset : Option ℕ → ℕ
  | some frameNo => frameNo + 1
  | none => 0

/-! ### The client -/

structure RemoteClient (α : Type*) where
  /-- the `data` of the meta, in memory -/
  metaData : Option (Option ℕ)
  lastReceived : Option ℕ
  sessionToken : Option ℕ
  prefetchedBatchLogEntries : Option (Except Error (List (Frame α)))

namespace RemoteClient

/-- `new`, with what the meta file has. -/
def new (file : Option (Option ℕ)) : RemoteClient α := ⟨file, currentFrameNo file, none, none⟩

def committedFrameNo (c : RemoteClient α) : Option ℕ := currentFrameNo c.metaData

def rollback (c : RemoteClient α) : RemoteClient α :=
  { c with lastReceived := c.committedFrameNo }

/-- `do_handshake_with_prefetch`: the token of `hello`, and the answer to the request that is sent
along with it when there has been a session.  The meta is written to its file unless that fails. -/
def handshake (c : RemoteClient α) (hello : Except Unit ℕ)
    (frames : Except Error (List (Frame α))) (flushed : Bool) : RemoteClient α × Bool :=
  let frames := c.sessionToken.map fun _ => frames
  match hello with
  | .error () => ({ c with prefetchedBatchLogEntries := frames }, false)
  | .ok token =>
    let newSession := c.sessionToken ≠ some token
    let c := { c with
      sessionToken := some token
      metaData := some (c.metaData.getD none) }
    if flushed then
      ({ c with prefetchedBatchLogEntries := if newSession then none else frames }, true)
    else ({ c with prefetchedBatchLogEntries := frames }, false)

def handleNextFramesResponse (c : RemoteClient α) :
    Except Error (List (Frame α)) → RemoteClient α × Except Error (List (Frame α))
  | .error e => (c, .error e)
  | .ok frames =>
    ({ c with lastReceived := (frames.getLast?.map Frame.frameNo).or c.lastReceived }, .ok frames)

/-- `do_next_frames`: the prefetched answer is taken, or else that of a new request. -/
def nextFrames (c : RemoteClient α) (frames : Except Error (List (Frame α))) :
    RemoteClient α × Except Error (List (Frame α)) :=
  { c with prefetchedBatchLogEntries := none }.handleNextFramesResponse
    (c.prefetchedBatchLogEntries.getD frames)

/-- `do_snapshot`: the first frame is the one with the highest number. -/
def snapshot (c : RemoteClient α) : List (Except Unit (Frame α)) → RemoteClient α
  | .ok frame :: _ => { c with lastReceived := some frame.frameNo }
  | _ => c

end RemoteClient

/-! ### The replicator -/

structure Sys (α : Type*) where
  /-- all frames that the primary has committed -/
  history : List (Frame α)
  /-- the first frame that is in its log still -/
  logStart : ℕ
  client : RemoteClient α
  /-- what the meta file has -/
  file : Option (Option ℕ)
  injector : SqliteInjector α
  state : State
  /-- the rest of the stream that is being injected -/
  stream : Option (List (Except Unit (Frame α)))
  /-- the number of a commit that is not recorded yet -/
  commitFno : Option ℕ
  /-- the frames that were injected since the last commit or rollback -/
  since : List (Frame α)
  /-- how many frames of the log are in the database -/
  applied : ℕ

namespace Sys

/-- A replica without a database, and a primary. -/
def new (history : List (Frame α)) (logStart capacity : ℕ) : Sys α where
  history := history
  logStart := logStart
  client := .new none
  file := none
  injector := .new capacity fun _ => none
  state := .needHandshake
  stream := none
  commitFno := none
  since := []
  applied := 0

/-- The number of the frames up to the one that is committed. -/
def committed (s : Sys α) : ℕ := nextOffset s.client.committedFrameNo

/-- An answer to `batch_log_entries`: the frames from the next offset up to a number. -/
def answer (s : Sys α) (upTo : Except Error ℕ) : Except Error (List (Frame α)) :=
  upTo.map (segment s.history (nextOffset s.client.lastReceived))

/-- A step that ends with an error: the client and the injector are rolled back. -/
def fails (s : Sys α) (e : Error) : Sys α :=
  { s with
    client := s.client.rollback
    injector := s.injector.rollback
    state := if e = .needSnapshot then .needSnapshot else .needHandshake
    stream := none
    commitFno := none
    since := [] }

end Sys

/-- The largest number of some frames. -/
def largest (frames : List (Frame α)) : ℕ := (frames.map Frame.frameNo).foldr max 0

inductive Action (α : Type*)
  /-- a transaction of the primary -/
  | commit (pages : List (ℕ × α)) (last : ℕ × α) (sizeAfter : ℕ)
  /-- the log of the primary is swapped out -/
  | compact
  | forceHandshake
  /-- one attempt of `try_perform_handshake` -/
  | handshake (hello : Except Unit ℕ) (upTo : Except Error ℕ) (flushed : Bool)
  /-- `try_perform_handshake` returns an error -/
  | giveUp
  | nextFrames (upTo : Except Error ℕ)
  | snapshot (file : SnapshotFile α)
  | snapshotFails (e : Error)
  /-- the next item of the stream is taken -/
  | next (fault : Fault)
  /-- the stream of a snapshot breaks off -/
  | streamFails (e : Error)
  /-- `commit_frame_no`, whose write to the meta file may fail -/
  | record (flushed : Bool)
  | crash

/-- `try_replicate` and `load_snapshot`, with the next item of the stream. -/
def Sys.next (s : Sys α) (fault : Fault) : List (Except Unit (Frame α)) → Sys α
  | [] => { s with stream := none, state := .needFrames }
  | .error () :: _ => s.fails .other
  | .ok frame :: stream =>
    match s.injector.injectFrame frame fault with
    | (injector, .ok none) =>
      { s with injector := injector, stream := some stream, since := s.since ++ [frame] }
    | (injector, .ok (some frameNo)) =>
      { s with
        injector := injector
        stream := some stream
        commitFno := some frameNo
        since := []
        applied := largest (s.since ++ [frame]) + 1 }
    | (injector, .error ()) =>
      -- the frames have been taken when only the schema could not be refreshed
      { s with
        injector := injector
        applied :=
          if fault = Fault.refresh ∧ frame.sizeAfter ≠ 0 then largest (s.since ++ [frame]) + 1
          else s.applied }.fails .other

/-- `set_commit_frame_no`: the number in memory changes even if the file cannot be written. -/
def Sys.record (s : Sys α) (frameNo : ℕ) (flushed : Bool) : Sys α :=
  let s := { s with client := { s.client with metaData := some (some frameNo) } }
  if flushed then { s with file := s.client.metaData, commitFno := none } else s.fails .other

def step (s : Sys α) : Action α → Option (Sys α)
  | .commit pages last sizeAfter =>
    some { s with
      history := s.history ++ transaction s.history.length pages last sizeAfter }
  | .compact => some { s with logStart := s.history.length }
  | .forceHandshake =>
    if s.stream.isNone then some { s with state := .needHandshake } else none
  | .handshake hello upTo flushed =>
    if s.state = .needHandshake ∧ s.stream.isNone then
      match s.client.handshake hello (s.answer upTo) flushed with
      | (client, false) => some { s with client := client }
      | (client, true) =>
        some { s with client := client, file := client.metaData, state := .needFrames }
    else none
  | .giveUp =>
    if s.state = .needHandshake ∧ s.stream.isNone then some (s.fails .other) else none
  | .nextFrames upTo =>
    if s.state = .needFrames ∧ s.stream.isNone then
      match s.client.nextFrames (s.answer upTo) with
      | (client, .error e) => some ({ s with client := client }.fails e)
      | (client, .ok frames) =>
        some { s with client := client, stream := some (frames.map .ok) }
    else none
  | .snapshot file =>
    if s.state = .needSnapshot ∧ s.stream.isNone then
      let stream := makeSnapshotStream file (nextOffset s.client.rollback.lastReceived)
      some { s with
        client := s.client.rollback.snapshot stream
        injector := s.injector.rollback
        stream := some stream }
    else none
  | .snapshotFails e =>
    if s.state = .needSnapshot ∧ s.stream.isNone then some (s.fails e) else none
  | .next fault =>
    match s.stream, s.commitFno with
    | some stream, none => some (s.next fault stream)
    | _, _ => none
  | .streamFails e =>
    if s.state = .needSnapshot ∧ s.stream.isSome ∧ s.commitFno = none then some (s.fails e)
    else none
  | .record flushed =>
    match s.commitFno, s.client.metaData with
    | some frameNo, some _ => some (s.record frameNo flushed)
    | _, _ => none
  | .crash =>
    some { s with
      client := .new s.file
      injector := .new s.injector.capacity s.injector.db
      state := .needHandshake
      stream := none
      commitFno := none
      since := [] }

/-! ### The primary -/

/-- A batch has the frames of whole transactions, or none, if the log has the next one still. -/
def Sys.Batch (s : Sys α) (upTo : Except Error ℕ) : Prop :=
  ∀ e, upTo = .ok e →
    s.logStart ≤ nextOffset s.client.lastReceived ∧
      (e ≤ nextOffset s.client.lastReceived ∨ e ∈ commitsOf s.history)

/-- The primary commits transactions and answers from its log, and from the snapshots that were made
of what has been swapped out. -/
def Honest (s : Sys α) : Action α → Prop
  | .commit _ _ sizeAfter => sizeAfter ≠ 0
  | .handshake _ upTo _ => s.client.sessionToken ≠ none → s.Batch upTo
  | .nextFrames upTo => s.client.prefetchedBatchLogEntries = none → s.Batch upTo
  | .snapshot file =>
    Made s.history file ∧ file.endFrameNo < s.logStart ∧ file.startFrameNo ≤ s.committed ∧
      s.committed ≤ file.endFrameNo
  | _ => True

/-- The snapshot ends no earlier than what the replica has in its database, and what it began to
write. -/
def Reaching (s : Sys α) : Action α → Prop
  | .snapshot file =>
    s.applied ≤ file.endFrameNo + 1 ∧ s.injector.biggestUncommittedSeen ≤ file.endFrameNo
  | _ => True

/-- No commit is left unrecorded. -/
def Recorded (s : Sys α) : Action α → Prop
  | .next fault => fault ≠ .refresh
  | .record flushed => flushed = true
  | .crash => s.commitFno = none
  | _ => True

end SqlAnywhere.Replication.Replicator
