import SqlAnywhere.Lib.Run
import SqlAnywhere.Server.ReplicationLog

/-!
# Forks from the replication log

A fork without a timestamp copies its source from the source's log and snapshots, while transactions
commit and the log is compacted.  It streams frames from the log; where the log no longer has the next
one it reads a snapshot that has; and it stops when the number of the next frame has reached the number
that the last frame had when it started.

* `Source` — the log, the logs to be compacted and the snapshots of a namespace, with every frame that
  was ever committed
* `ForkTask` — `restore_from_log_file`, taken apart where it waits
-/

namespace SqlAnywhere.Server.ForkLog

open ReplicationLog

variable {α : Type*}

/-! ### The source -/

/-- The source of a fork. -/
structure Source (α : Type*) where
  log : LogFile α
  /-- logs that were swapped out, to be compacted -/
  toCompact : List (LogFile α)
  snapshots : List (Snapshot α)
  /-- every frame that was committed, in the order of their numbers -/
  history : List (Frame α)
  /-- how many frames there were after each transaction, with the empty database first -/
  commits : List ℕ

/-- What happens to a source. -/
inductive SourceAction (α : Type*)
  /-- a page is written in a transaction -/
  | push (pageNo sizeAfter : ℕ) (page : α)
  | commit
  | rollback
  /-- `do_compaction`, which swaps the log -/
  | compact
  /-- `perform_compaction` of the first log that waits for it -/
  | snapshot
  /-- `merge_snapshots` of the snapshots at these places -/
  | merge (places : List ℕ)
  /-- a snapshot that has been merged is removed -/
  | remove (place : ℕ)

/-- The merger has its snapshots in chronological order, without gaps. -/
def contiguous : List (Snapshot α) → Bool
  | [] => true
  | [_] => true
  | a :: b :: rest => b.startFrameNo == a.endFrameNo + 1 && contiguous (b :: rest)

namespace Source

def new : Source α where
  log := LogFile.new 0
  toCompact := []
  snapshots := []
  history := []
  commits := [0]

def commit (s : Source α) : Source α :=
  { s with
    log := s.log.commit
    history := s.history ++ s.log.uncommitted
    commits := s.commits ++ [(s.history ++ s.log.uncommitted).length] }

/-- `do_compaction`: nothing is done while frames are uncommitted, or where there are none. -/
def compact (s : Source α) : Source α :=
  if s.log.uncommitted.isEmpty && !s.log.frames.isEmpty then
    { s with
      log := LogFile.new (s.log.startFrameNo + s.log.frames.length)
      toCompact := s.toCompact ++ [s.log] }
  else s

/-- The compactor makes a snapshot of the next log. -/
def snapshot (s : Source α) : Source α :=
  match s.toCompact with
  | [] => s
  | log :: rest =>
    match performCompaction log with
    | none => s
    | some made => { s with toCompact := rest, snapshots := made :: s.snapshots }

def merge (s : Source α) (places : List ℕ) : Source α :=
  let parts := places.filterMap fun i => s.snapshots[i]?
  if contiguous parts then
    match mergeSnapshots parts with
    | none => s
    | some made => { s with snapshots := made :: s.snapshots }
  else s

def step (s : Source α) : SourceAction α → Source α
  | .push pageNo sizeAfter page => { s with log := s.log.pushPage pageNo sizeAfter page }
  | .commit => s.commit
  | .rollback => { s with log := s.log.rollback }
  | .compact => s.compact
  | .snapshot => s.snapshot
  | .merge places => s.merge places
  | .remove place => { s with snapshots := s.snapshots.eraseIdx place }

/-- The database after the first `n` frames. -/
def pagesAt (s : Source α) (n : ℕ) : Pages α := writeFrames (fun _ => none) (s.history.take n)

end Source

/-! ### The fork -/

/-- Where a fork is. -/
inductive Phase (α : Type*)
  /-- at the condition of its loop -/
  | looping
  /-- before the next frame of its stream -/
  | streaming (stream : FrameStream)
  /-- without a snapshot that has the next frame -/
  | waiting (stream : FrameStream)
  /-- in a snapshot, whose frames from `start` on are read; `previous` is the number of the last one -/
  | reading (stream : FrameStream) (start : ℕ) (previous : Option ℕ) (frames : List (Frame α))
  | done
  | failed

/-- `restore_from_log_file` -/
structure ForkTask (α : Type*) where
  endFrameNo : Option ℕ
  nextFrameNo : ℕ
  file : Pages α
  phase : Phase α

namespace ForkTask

def new (endFrameNo : Option ℕ) : ForkTask α where
  endFrameNo := endFrameNo
  nextFrameNo := 0
  file := fun _ => none
  phase := .looping

/-- `write_frame`, with the count of the next frame. -/
def write (t : ForkTask α) (frame : Frame α) : ForkTask α :=
  { t with
    nextFrameNo := max t.nextFrameNo (frame.frameNo + 1)
    file := Function.update t.file frame.pageNo (some frame.page) }

/-- The condition of the loop. -/
def check (t : ForkTask α) : ForkTask α :=
  match t.endFrameNo with
  | none => { t with phase := .done }
  | some endFrameNo =>
    if t.nextFrameNo < endFrameNo then
      { t with phase := .streaming { currentFrameNo := t.nextFrameNo, closed := false } }
    else { t with phase := .done }

/-- One item of the stream. -/
def poll (t : ForkTask α) (stream : FrameStream) (log : LogFile α) : ForkTask α :=
  match stream.next log with
  | (none, _) => { t with phase := .looping }
  | (some (.ok frame), stream) => { t.write frame with phase := .streaming stream }
  | (some (.error .snapshotRequired), stream) => { t with phase := .waiting stream }
  -- the stream ends instead
  | (some (.error .ahead), _) => { t with phase := .failed }

/-- `get_snapshot_file` finds a snapshot. -/
def find (t : ForkTask α) (stream : FrameStream) (snapshot : Snapshot α) : ForkTask α :=
  if snapshot.startFrameNo ≤ t.nextFrameNo ∧ t.nextFrameNo ≤ snapshot.endFrameNo then
    { t with phase := .reading stream t.nextFrameNo none snapshot.frames }
  else t

/-- One frame of `into_stream_mut_from`. -/
def read (t : ForkTask α) (stream : FrameStream) (start : ℕ) (previous : Option ℕ) :
    List (Frame α) → ForkTask α
  | [] => { t with phase := .streaming stream }
  | frame :: frames =>
    if previous.any (· ≤ frame.frameNo) then { t with phase := .failed }
    else if start ≤ frame.frameNo then
      { t.write frame with phase := .reading stream start (some frame.frameNo) frames }
    else { t with phase := .streaming stream }

end ForkTask

/-- A source with a fork of it, once one was started, and the number of frames at that time. -/
structure Sys (α : Type*) where
  source : Source α
  startedAt : ℕ
  fork : Option (ForkTask α)

inductive Action (α : Type*)
  | source (a : SourceAction α)
  | start
  | check
  | poll
  | find (place : ℕ)
  | read
  | fail

namespace Sys

def new : Sys α := ⟨Source.new, 0, none⟩

def setFork (s : Sys α) (t : ForkTask α) : Sys α := { s with fork := some t }

/-- Take a step, where it is one that can be taken. -/
def step (s : Sys α) : Action α → Option (Sys α)
  | .source a => some { s with source := s.source.step a }
  | .start =>
    if s.fork.isSome then none
    else some ⟨s.source, s.source.history.length, some (ForkTask.new s.source.log.lastFrameNo)⟩
  | .check =>
    match s.fork with
    | none => none
    | some t =>
      match t.phase with
      | .looping => some (s.setFork t.check)
      | _ => none
  | .poll =>
    match s.fork with
    | none => none
    | some t =>
      match t.phase with
      | .streaming stream => some (s.setFork (t.poll stream s.source.log))
      | _ => none
  | .find place =>
    match s.fork with
    | none => none
    | some t =>
      match t.phase, s.source.snapshots[place]? with
      | .waiting stream, some snapshot => some (s.setFork (t.find stream snapshot))
      | _, _ => none
  | .read =>
    match s.fork with
    | none => none
    | some t =>
      match t.phase with
      | .reading stream start previous frames =>
        some (s.setFork (t.read stream start previous frames))
      | _ => none
  | .fail =>
    match s.fork with
    | none => none
    | some t =>
      match t.phase with
      | .done => none
      | _ => some (s.setFork { t with phase := .failed })

end Sys

end SqlAnywhere.Server.ForkLog
