import SqlAnywhere.Lib.Overwrite

/-!
# The replication log and its snapshots

A primary writes every page of every transaction to a log of numbered frames.  From time to time the
log is swapped for an empty one, and the old one is compacted to a snapshot, with the newest frame of
each page only; snapshots are merged in the same way.

* `LogFile` — the log with the frames that are committed and those that are not
* `LogOf` — the log has the end of what was committed, and its look-ups find that
* `FrameStream` — the frames from a number on, as far as they are in the log
* `SnapshotBuilder` — how snapshots are made of logs and of other snapshots
* `appendFrames_frames` — they have the newest frame of each page
-/

namespace SqlAnywhere.Server.ReplicationLog

open List Overwrite

variable {α : Type*}

/-- A frame with the fields of its header but the checksum. -/
structure Frame (α : Type*) where
  frameNo : ℕ
  pageNo : ℕ
  /-- the size of the database, on the last frame of a transaction -/
  sizeAfter : ℕ
  page : α
  deriving DecidableEq

/-- The pages of a database file, as far as they have been written. -/
abbrev Pages (α : Type*) := ℕ → Option α

/-- Write frames to a file, each to the place of its page. -/
abbrev writeFrames (file : Pages α) (frames : List (Frame α)) : Pages α :=
  Overwrite.write Frame.pageNo Frame.page file frames

/-! ### The log -/

/-- `LogFile`: the frames that the header counts and those after them. -/
structure LogFile (α : Type*) where
  startFrameNo : ℕ
  frames : List (Frame α)
  uncommitted : List (Frame α)

inductive LogReadError
  | snapshotRequired
  | ahead

namespace LogFile

def new (startFrameNo : ℕ) : LogFile α := ⟨startFrameNo, [], []⟩

def nextFrameNo (log : LogFile α) : ℕ :=
  log.startFrameNo + log.frames.length + log.uncommitted.length

def pushPage (log : LogFile α) (pageNo sizeAfter : ℕ) (page : α) : LogFile α :=
  { log with uncommitted := log.uncommitted ++ [⟨log.nextFrameNo, pageNo, sizeAfter, page⟩] }

def commit (log : LogFile α) : LogFile α :=
  { log with frames := log.frames ++ log.uncommitted, uncommitted := [] }

def rollback (log : LogFile α) : LogFile α := { log with uncommitted := [] }

def lastFrameNo (log : LogFile α) : Option ℕ :=
  if log.startFrameNo = 0 ∧ log.frames.length = 0 then none
  else some (log.startFrameNo + log.frames.length - 1)

def frame (log : LogFile α) (frameNo : ℕ) : Except LogReadError (Frame α) :=
  if frameNo < log.startFrameNo then .error .snapshotRequired
  else
    match log.frames[frameNo - log.startFrameNo]? with
    | none => .error .ahead
    | some frame => .ok frame

end LogFile

/-- The frames of the log are the end of all that was committed. -/
structure LogOf (history : List (Frame α)) (log : LogFile α) : Prop where
  start_le : log.startFrameNo ≤ history.length
  frames : log.frames = history.drop log.startFrameNo

theorem LogFile.exists_frame {n : ℕ} (log : LogFile α) (hstart : log.startFrameNo ≤ n)
    (hend : n < log.startFrameNo + log.frames.length) : ∃ frame, log.frame n = .ok frame := by
  obtain ⟨frame, hframe⟩ : ∃ frame, log.frames[n - log.startFrameNo]? = some frame :=
    ⟨_, getElem?_eq_getElem (by omega)⟩
  refine ⟨frame, ?_⟩
  rw [LogFile.frame, if_neg (by omega), hframe]

namespace LogOf

variable {history : List (Frame α)} {log : LogFile α} {n : ℕ} (h : LogOf history log)
include h

theorem length :
    log.startFrameNo + log.frames.length = history.length := by
  have := h.start_le
  rw [h.frames, length_drop]
  omega

theorem append (frames : List (Frame α)) :
    LogOf (history ++ frames) { log with frames := log.frames ++ frames } where
  start_le := by
    have := h.start_le
    rw [length_append]
    show log.startFrameNo ≤ _
    omega
  frames := by
    rw [drop_append_of_le_length h.start_le, h.frames]

theorem swapped :
    LogOf history (.new (log.startFrameNo + log.frames.length)) where
  start_le := Nat.le_of_eq h.length
  frames := by
    show [] = history.drop (log.startFrameNo + log.frames.length)
    rw [h.length, drop_length]

theorem frame_cases (n : ℕ) :
    (∃ frame, log.frame n = .ok frame ∧ history[n]? = some frame) ∨
      (log.frame n = .error .ahead ∧ history.length ≤ n) ∨
      log.frame n = .error .snapshotRequired := by
  rw [LogFile.frame]
  split
  · exact Or.inr (Or.inr rfl)
  rename_i hlt
  have hget : log.frames[n - log.startFrameNo]? = history[n]? := by
    rw [h.frames, getElem?_drop]
    congr 1
    omega
  rw [hget]
  cases hn : history[n]? with
  | none => exact Or.inr (Or.inl ⟨rfl, getElem?_eq_none_iff.1 hn⟩)
  | some frame => exact Or.inl ⟨frame, rfl, rfl⟩

theorem frame_ok {frame : Frame α} (hok : log.frame n = .ok frame) :
    history[n]? = some frame := by
  rcases h.frame_cases n with ⟨frame', hframe, hget⟩ | ⟨hframe, -⟩ | hframe <;>
    cases hok.symm.trans hframe
  exact hget

theorem frame_ahead (hahead : log.frame n = .error .ahead) : history.length ≤ n := by
  rcases h.frame_cases n with ⟨frame, hframe, -⟩ | ⟨-, hle⟩ | hframe
  · cases hahead.symm.trans hframe
  · exact hle
  · cases hahead.symm.trans hframe

theorem exists_frame (hstart : log.startFrameNo ≤ n)
    (hend : n < history.length) : ∃ frame, log.frame n = .ok frame := by
  have hlength := h.length
  exact log.exists_frame hstart (by omega)

theorem lastFrameNo_none (hlast : log.lastFrameNo = none) : history.length = 0 := by
  have hlen := h.length
  rw [LogFile.lastFrameNo] at hlast
  split_ifs at hlast
  omega

theorem lastFrameNo_some (hlast : log.lastFrameNo = some n) : history.length = n + 1 := by
  have hlen := h.length
  rw [LogFile.lastFrameNo] at hlast
  split_ifs at hlast
  have := Option.some.inj hlast
  omega

end LogOf

/-! ### Streams -/

/-- A `FrameStream` that does not wait for more frames and has no limit to their number. -/
structure FrameStream where
  currentFrameNo : ℕ
  closed : Bool

/-- `FrameStream::poll_next`, up to where it is ready. -/
def FrameStream.next (stream : FrameStream) (log : LogFile α) :
    Option (Except LogReadError (Frame α)) × FrameStream :=
  if stream.closed then (none, stream)
  else
    match log.frame stream.currentFrameNo with
    | .ok frame => (some (.ok frame), { stream with currentFrameNo := stream.currentFrameNo + 1 })
    | .error .ahead => (none, { stream with closed := true })
    | .error e => (some (.error e), { stream with closed := true })

/-! ### Snapshots -/

/-- `SnapshotFile`: its frames are in descending order. -/
structure Snapshot (α : Type*) where
  startFrameNo : ℕ
  endFrameNo : ℕ
  frames : List (Frame α)
  deriving DecidableEq

/-- A frame of a snapshot does not end a transaction. -/
def Frame.clear (frame : Frame α) : Frame α := { frame with sizeAfter := 0 }

/-- `SnapshotBuilder`.  Before the first frame its `start_frame_no` and its `last_seen_frame_no` are
the largest number there is. -/
structure SnapshotBuilder (α : Type*) where
  seenPages : List ℕ
  startFrameNo : Option ℕ
  endFrameNo : ℕ
  lastSeenFrameNo : Option ℕ
  frames : List (Frame α)

namespace SnapshotBuilder

def new : SnapshotBuilder α := ⟨[], none, 0, none, []⟩

/-- One frame of `append_frames`. -/
def appendFrame (b : SnapshotBuilder α) (frame : Frame α) : SnapshotBuilder α :=
  let b := { b with
    lastSeenFrameNo := some frame.frameNo
    startFrameNo := some ((b.startFrameNo.map (min frame.frameNo)).getD frame.frameNo)
    endFrameNo := max frame.frameNo b.endFrameNo }
  if frame.pageNo ∈ b.seenPages then b
  else { b with
    seenPages := frame.pageNo :: b.seenPages
    frames := b.frames ++ [frame.clear] }

/-- `append_frames`, `none` where its assertion on the order of the frames fails. -/
def appendFrames (b : SnapshotBuilder α) : List (Frame α) → Option (SnapshotBuilder α)
  | [] => some b
  | frame :: frames =>
    if b.lastSeenFrameNo.any (· ≤ frame.frameNo) then none
    else (b.appendFrame frame).appendFrames frames

end SnapshotBuilder

def performCompaction (log : LogFile α) : Option (Snapshot α) :=
  (SnapshotBuilder.new.appendFrames log.frames.reverse).bind fun b =>
    b.startFrameNo.map fun start => ⟨start, b.endFrameNo, b.frames⟩

/-- `merge_snapshots` of snapshots in chronological order: its frames are appended from the newest
snapshot on, and its name is from the first to the last frame of all. -/
def mergeSnapshots (parts : List (Snapshot α)) : Option (Snapshot α) :=
  match parts with
  | [] => none
  | first :: rest =>
    (SnapshotBuilder.new.appendFrames ((first :: rest).reverse.flatMap Snapshot.frames)).map
      fun b => ⟨first.startFrameNo, ((first :: rest).getLast (by simp)).endFrameNo, b.frames⟩

/-! ### What a snapshot holds -/

@[simp] theorem clear_pageNo (frame : Frame α) : frame.clear.pageNo = frame.pageNo := rfl

@[simp] theorem clear_page (frame : Frame α) : frame.clear.page = frame.page := rfl

/-- The newest frame of each page, newest first, of frames in the order of their numbers. -/
def compacted (frames : List (Frame α)) : List (Frame α) :=
  (Overwrite.newest Frame.pageNo [] frames.reverse).map Frame.clear

theorem writeFrames_compacted (file : Pages α) (frames : List (Frame α)) :
    writeFrames file (compacted frames) = writeFrames file frames := by
  rw [compacted, writeFrames, write_map clear_pageNo clear_page, write_newest, reverse_reverse]

theorem compacted_head {frames : List (Frame α)} {last : Frame α}
    (h : frames.getLast? = some last) : ∃ rest, compacted frames = last.clear :: rest := by
  rw [← head?_reverse] at h
  obtain ⟨rest, hrev⟩ := head?_eq_some_iff.1 h
  rw [compacted, hrev, newest, if_neg not_mem_nil, map_cons]
  exact ⟨_, rfl⟩

theorem mem_compacted {frames : List (Frame α)} {frame : Frame α} (h : frame ∈ compacted frames) :
    ∃ frame' ∈ frames, frame = frame'.clear := by
  obtain ⟨frame', hframe', rfl⟩ := mem_map.1 h
  exact ⟨frame', mem_reverse.1 (mem_of_mem_newest hframe'), rfl⟩

/-- Frames that are older than those of a compacted list only come after them. -/
theorem compacted_append (older newer : List (Frame α)) :
    ∃ rest : List (Frame α), compacted (older ++ newer) = compacted newer ++ rest ∧
      ∀ frame ∈ rest, ∃ frame' ∈ older, frame.frameNo = frame'.frameNo := by
  rw [compacted, reverse_append, newest_append, map_append]
  refine ⟨_, rfl, ?_⟩
  intro frame hframe
  obtain ⟨frame', hframe', rfl⟩ := mem_map.1 hframe
  exact ⟨frame', mem_reverse.1 (mem_of_mem_newest hframe'), rfl⟩

theorem newest_compacted_append (older newer : List (Frame α)) :
    (newest Frame.pageNo [] (compacted newer ++ compacted older)) =
      compacted (older ++ newer) := by
  rw [compacted, compacted, ← newest_map clear_pageNo,
    ← newest_map clear_pageNo, newest_newest_append, ← map_append,
    newest_map clear_pageNo, ← reverse_append, compacted]

theorem newest_compacted (frames : List (Frame α)) :
    newest Frame.pageNo [] (compacted frames) = compacted frames := by
  have h := newest_compacted_append [] frames
  simpa [compacted, newest] using h

theorem map_clear_compacted (frames : List (Frame α)) :
    (compacted frames).map Frame.clear = compacted frames := by
  rw [compacted, map_map]
  rfl

namespace SnapshotBuilder

variable {b b' : SnapshotBuilder α} {frames : List (Frame α)}

/-- **A snapshot has the newest frame of each page.** -/
theorem appendFrames_frames (h : b.appendFrames frames = some b') :
    b'.frames = b.frames ++
      (newest Frame.pageNo b.seenPages frames).map Frame.clear := by
  induction frames generalizing b with
  | nil =>
    cases h
    exact (append_nil _).symm
  | cons frame frames ih =>
    rw [appendFrames] at h
    split_ifs at h
    rw [ih h, newest, appendFrame]
    split
    · rfl
    · rw [map_cons, append_assoc]
      rfl

theorem appendFrame_start {frame : Frame α} (hstart : b.startFrameNo = b.lastSeenFrameNo)
    (hlt : ¬ b.lastSeenFrameNo.any (· ≤ frame.frameNo) = true) :
    (b.appendFrame frame).startFrameNo = some frame.frameNo ∧
      (b.appendFrame frame).lastSeenFrameNo = some frame.frameNo := by
  have hmin : (b.startFrameNo.map (min frame.frameNo)).getD frame.frameNo = frame.frameNo := by
    rw [hstart]
    cases hlast : b.lastSeenFrameNo with
    | none => rfl
    | some last =>
      rw [hlast] at hlt
      simp only [Option.any_some, decide_eq_true_eq] at hlt
      show min frame.frameNo last = frame.frameNo
      omega
  rw [appendFrame]
  rw [hmin]
  split <;> exact ⟨rfl, rfl⟩

/-- The frames come in descending order, so the last of them is the first of the snapshot. -/
theorem appendFrames_start (h : b.appendFrames frames = some b')
    (hstart : b.startFrameNo = b.lastSeenFrameNo) {last : Frame α}
    (hlast : frames.getLast? = some last) : b'.startFrameNo = some last.frameNo := by
  induction frames generalizing b with
  | nil => cases hlast
  | cons frame frames ih =>
    rw [appendFrames] at h
    split_ifs at h with hlt
    obtain ⟨hs, hl⟩ := appendFrame_start hstart hlt
    cases frames with
    | nil =>
      cases hlast
      cases h
      exact hs
    | cons frame' frames => exact ih h (hs.trans hl.symm) (by rw [← hlast, getLast?_cons_cons])

theorem appendFrame_end (b : SnapshotBuilder α) (frame : Frame α) :
    (b.appendFrame frame).endFrameNo = max frame.frameNo b.endFrameNo ∧
      (b.appendFrame frame).lastSeenFrameNo = some frame.frameNo := by
  rw [appendFrame]
  split <;> exact ⟨rfl, rfl⟩

/-- And the first of them is its last one. -/
theorem appendFrames_end (h : b.appendFrames frames = some b') {last : ℕ}
    (hlast : b.lastSeenFrameNo = some last) (hle : last ≤ b.endFrameNo) :
    b'.endFrameNo = b.endFrameNo := by
  induction frames generalizing b last with
  | nil =>
    cases h
    rfl
  | cons frame frames ih =>
    rw [appendFrames] at h
    split_ifs at h with hlt
    rw [hlast] at hlt
    simp only [Option.any_some, decide_eq_true_eq] at hlt
    obtain ⟨hend, hseen⟩ := b.appendFrame_end frame
    have hmax : (b.appendFrame frame).endFrameNo = b.endFrameNo := by
      rw [hend]
      omega
    rw [ih h hseen (by omega), hmax]

end SnapshotBuilder

theorem performCompaction_eq {log : LogFile α} {s : Snapshot α}
    (h : performCompaction log = some s) {first last : Frame α}
    (hfirst : log.frames.head? = some first) (hlast : log.frames.getLast? = some last) :
    s = ⟨first.frameNo, last.frameNo, compacted log.frames⟩ := by
  obtain ⟨b, hb, hs⟩ := Option.bind_eq_some_iff.1 h
  have hframes := SnapshotBuilder.appendFrames_frames hb
  have hstart := SnapshotBuilder.appendFrames_start hb rfl
    (show log.frames.reverse.getLast? = some first by rw [getLast?_reverse, hfirst])
  rw [hstart] at hs
  cases hs
  rw [← head?_reverse] at hlast
  obtain ⟨rest, hrest⟩ := head?_eq_some_iff.1 hlast
  rw [hrest, SnapshotBuilder.appendFrames] at hb
  obtain ⟨hend, hseen⟩ := SnapshotBuilder.new.appendFrame_end last
  have hend' : b.endFrameNo = last.frameNo := by
    rw [if_neg (by simp [SnapshotBuilder.new])] at hb
    rw [SnapshotBuilder.appendFrames_end hb hseen (by rw [hend]; exact Nat.le_max_left ..), hend]
    exact Nat.max_eq_left (Nat.zero_le _)
  rw [hend', hframes]
  rfl

end SqlAnywhere.Server.ReplicationLog
