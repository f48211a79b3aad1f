import Mathlib.Data.List.Sort
import SqlAnywhere.Server.SnapshotDir

/-!
# Compaction of the log, in steps that a crash can come between

The log is swapped for an empty one that is made in the directory `to_compact`; the old one, which is
then there, is compacted to a snapshot, the snapshot is registered with the merger, and the old log is
removed.  The merger has a list of snapshots, merges it when it has become too large, and removes the
parts one by one.  Each of these is a step of its own on the disk; what the process has in memory is
lost in a crash, and after it is read from the directories again.

* `Sys` — the disk, what was committed, and the process if it runs
* `step` — the steps of the logger, of the compactor and of the merger, a crash, and a restart
* `Covered`, `Increasing` — what is to hold after all of them
-/

namespace SqlAnywhere.Server.LogCompactor

open ReplicationLog ForkLog SnapshotDir

variable {α : Type*}

/-- A file of the directory `to_compact`. -/
inductive Entry (α : Type*)
  /-- created, without a header yet -/
  | empty
  /-- a new log, with nothing but its header -/
  | header
  | log (log : LogFile α)

/-- Where the compactor is with the first log of its queue. -/
inductive Compactor
  | idle
  /-- the snapshot, with the number of its frames and the size of the database, is in its place -/
  | renamed (path : ℕ) (snapshot : Name) (count dbPageCount : ℕ)
  | registered (path : ℕ)
  | stopped

/-- Where a task of the merger is. -/
inductive Job
  | building (parts : List (Name × ℕ))
  /-- the result is in its place, and these parts are still to be removed -/
  | removing (merged : Name × ℕ) (parts : List Name)

inductive Merger
  /-- the directory has not been read yet -/
  | starting
  | running (snapshots : List (Name × ℕ)) (job : Option Job)
  | stopped

/-- What the process has in memory. -/
structure Process where
  /-- the file that a compaction of the log has made in `to_compact` -/
  moving : Option ℕ
  /-- the logs that are to be compacted, by their paths -/
  queue : List ℕ
  compactor : Compactor
  /-- a snapshot that is registered and not received yet -/
  channel : Option (Name × ℕ × ℕ)
  merger : Merger

structure Sys (α : Type*) where
  /-- all frames that were ever committed -/
  history : List (Frame α)
  log : LogFile α
  toCompact : RowTable ℕ (Entry α)
  snapshots : Dir α
  process : Option Process

inductive Action (α : Type*)
  | commit (pages : List (ℕ × α)) (last : ℕ × α) (sizeAfter : ℕ)
  /-- `do_compaction` -/
  | create (path : ℕ)
  | writeHeader
  | swap
  | compact
  | register
  | remove
  /-- `run_snapshot_merger_loop` -/
  | init
  | receive
  | finish
  /-- `merge_snapshots` -/
  | merge
  | removePart
  | crash
  | restart

namespace Sys

def new : Sys α := ⟨[], .new 0, .empty, .empty, none⟩

def commit (s : Sys α) (frames : List (Frame α)) : Sys α :=
  { s with
    history := s.history ++ frames
    log := { s.log with frames := s.log.frames ++ frames } }

/-! ### The logger -/

def create (s : Sys α) (p : Process) (path : ℕ) : Option (Sys α) :=
  if p.moving = none ∧ s.log.frames ≠ [] ∧ path ∉ s.toCompact.rowids then
    some { s with
      toCompact := s.toCompact.put path .empty
      process := some { p with moving := some path } }
  else none

def writeHeader (s : Sys α) (p : Process) : Option (Sys α) :=
  p.moving.map fun path => { s with toCompact := s.toCompact.put path .header }

/-- `atomic_rename` of the log with the new one, and the send to the compactor. -/
def swap (s : Sys α) (p : Process) : Option (Sys α) :=
  p.moving.bind fun path =>
    match s.toCompact.get path with
    | some .header =>
      some { s with
        log := .new (s.log.startFrameNo + s.log.frames.length)
        toCompact := s.toCompact.put path (.log s.log)
        process := some { p with moving := none, queue := p.queue ++ [path] } }
    | _ => none

/-! ### The compactor -/

/-- `perform_compaction` of the first log. -/
def compact (s : Sys α) (p : Process) : Option (Sys α) :=
  match p.compactor, p.queue with
  | .idle, path :: _ =>
    match s.toCompact.get path with
    | some (.log log) =>
      match compactionFile log with
      | some file =>
        some { s with
          snapshots := s.snapshots.put file
          process := some { p with
            compactor := .renamed path (nameOf file) file.frames.length file.sizeAfter } }
      | none => some { s with process := some { p with compactor := .stopped } }
    | _ => some { s with process := some { p with compactor := .stopped } }
  | _, _ => none

/-- `register_snapshot` waits for room in the channel, and fails when the merger has ended. -/
def register (s : Sys α) (p : Process) : Option (Sys α) :=
  match p.compactor, p.merger, p.channel with
  | .renamed _ _ _ _, .stopped, _ =>
    some { s with process := some { p with compactor := .stopped } }
  | .renamed path name count dbPageCount, _, none =>
    some { s with
      process := some { p with
        compactor := .registered path
        channel := some (name, count, dbPageCount) } }
  | _, _, _ => none

/-- `remove_file` of the log that was compacted. -/
def remove (s : Sys α) (p : Process) : Option (Sys α) :=
  match p.compactor with
  | .registered path =>
    some { s with
      toCompact := s.toCompact.erase path
      process := some { p with compactor := .idle, queue := p.queue.tail } }
  | _ => none

/-! ### The merger -/

/-- `init_snapshot_info_list`: the snapshots in the directory by the start of their ranges. -/
def infoList (dir : Dir α) : List (Name × ℕ) :=
  (dir.files.rowids.insertionSort fun a b => a.startFrameNo ≤ b.startFrameNo).map fun name =>
    (name, ((dir.files.get name).map fun file => file.frames.length).getD 0)

def init (s : Sys α) (p : Process) : Option (Sys α) :=
  match p.merger with
  | .starting =>
    some { s with process := some { p with merger := .running (infoList s.snapshots) none } }
  | _ => none

/-- A snapshot is added to the list, and all of the list is given to a new task if it has become too
large and no task is at work. -/
def receive (s : Sys α) (p : Process) : Option (Sys α) :=
  match p.merger, p.channel with
  | .running snapshots job, some (name, count, dbPageCount) =>
    let snapshots := snapshots ++ [(name, count)]
    let merger : Merger :=
      if job.isNone && shouldCompact snapshots dbPageCount then
        .running [] (some (.building snapshots))
      else .running snapshots job
    some { s with process := some { p with channel := none, merger } }
  | _, _ => none

/-- The snapshot is built, in a file of the directory `tmp`, and renamed; the assertion on the order
of the frames ends the merger. -/
def merge (s : Sys α) (p : Process) : Option (Sys α) :=
  match p.merger with
  | .running snapshots (some (.building parts)) =>
    match build s.snapshots (parts.map Prod.fst) with
    | some file =>
      some { s with
        snapshots := s.snapshots.put file
        process := some { p with
          merger := .running snapshots
            (some (.removing (nameOf file, file.frames.length) (parts.map Prod.fst))) } }
    | none => some { s with process := some { p with merger := .stopped } }
  | _ => none

def removePart (s : Sys α) (p : Process) : Option (Sys α) :=
  match p.merger with
  | .running snapshots (some (.removing merged (part :: parts))) =>
    match s.snapshots.remove part with
    | some dir =>
      some { s with
        snapshots := dir
        process := some { p with
          merger := .running snapshots (some (.removing merged parts)) } }
    | none => some { s with process := some { p with merger := .stopped } }
  | _ => none

/-- The result of the task comes first in the list. -/
def finish (s : Sys α) (p : Process) : Option (Sys α) :=
  match p.merger with
  | .running snapshots (some (.removing merged [])) =>
    some { s with process := some { p with merger := .running (merged :: snapshots) none } }
  | _ => none

/-! ### Restarts -/

/-- The start of a log in `to_compact`, by which they are sorted. -/
def startOf (toCompact : RowTable ℕ (Entry α)) (path : ℕ) : ℕ :=
  match toCompact.get path with
  | some (.log log) => log.startFrameNo
  | _ => 0

def isLog (toCompact : RowTable ℕ (Entry α)) (path : ℕ) : Bool :=
  match toCompact.get path with
  | some (.log _) => true
  | _ => false

/-- A file without a header cannot be given one, as it is opened for reading only. -/
def isEmpty (toCompact : RowTable ℕ (Entry α)) (path : ℕ) : Bool :=
  match toCompact.get path with
  | some .empty => true
  | _ => false

/-- `pending_snapshots_list` -/
def pending (toCompact : RowTable ℕ (Entry α)) : List ℕ :=
  (toCompact.rowids.filter (isLog toCompact)).insertionSort fun a b =>
    startOf toCompact a ≤ startOf toCompact b

/-- The logs that have only a header are removed. -/
def dropHeaders (toCompact : RowTable ℕ (Entry α)) : RowTable ℕ (Entry α) :=
  (toCompact.rowids.filter fun path => !isLog toCompact path).foldl RowTable.erase toCompact

/-- `LogCompactor::new`, which fails when a file has no header. -/
def restart (s : Sys α) : Option (Sys α) :=
  if s.toCompact.rowids.any (isEmpty s.toCompact) then none
  else
    some { s with
      toCompact := dropHeaders s.toCompact
      process := some ⟨none, pending s.toCompact, .idle, none, .starting⟩ }

end Sys

def step (s : Sys α) (a : Action α) : Option (Sys α) :=
  match s.process, a with
  | none, .restart => s.restart
  | some p, .commit pages last sizeAfter =>
    if p.moving = none ∧ sizeAfter ≠ 0 then
      some (s.commit (transaction s.history.length pages last sizeAfter))
    else none
  | some p, .create path => s.create p path
  | some p, .writeHeader => s.writeHeader p
  | some p, .swap => s.swap p
  | some p, .compact => s.compact p
  | some p, .register => s.register p
  | some p, .remove => s.remove p
  | some p, .init => s.init p
  | some p, .receive => s.receive p
  | some p, .finish => s.finish p
  | some p, .merge => s.merge p
  | some p, .removePart => s.removePart p
  | some _, .crash => some { s with process := none }
  | _, _ => none

/-! ### What is to hold -/

/-- A frame is in the log, in a log that is to be compacted, or in the range of a snapshot. -/
def Covered (s : Sys α) (frameNo : ℕ) : Prop :=
  (∃ frame, s.log.frame frameNo = .ok frame) ∨
    (∃ path log frame, s.toCompact.get path = some (.log log) ∧ log.frame frameNo = .ok frame) ∨
    s.snapshots.Serves frameNo

/-- The snapshots that the merger works with: those of its task, or their result, and its list. -/
def Merger.working : Merger → List Name
  | .starting => []
  | .running snapshots none => snapshots.map Prod.fst
  | .running snapshots (some (.building parts)) =>
    parts.map Prod.fst ++ snapshots.map Prod.fst
  | .running snapshots (some (.removing merged _)) => merged.1 :: snapshots.map Prod.fst
  | .stopped => []

/-- Ranges that are disjoint and in ascending order. -/
def Increasing (names : List Name) : Prop :=
  names.Pairwise fun a b => a.endFrameNo < b.startFrameNo

end SqlAnywhere.Server.LogCompactor
