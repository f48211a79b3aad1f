import SqlAnywhere.Server.ForkLog.Copies

/-!
# The log file of a primary

`ReplicationLog.LogFile` has the frames of a log as lists.  Here they are in a file: a header, which is
kept in memory too, and frames at byte offsets behind it.  Frames are written behind the ones that the
header counts and become part of the log when a commit writes the header; what a rollback leaves in the
file is overwritten.

* `LogFile` — the file with what is in memory
* `step` — one call on the log, or a restart
* `Refines` — the frames in the file are those of the list model
* `frame_of_run` — what `frame` finds in any run
-/

namespace SqlAnywhere.Server.DiskLog

open List
open ReplicationLog (Frame)
open ForkLog (Source)

variable {α : Type*}

/-! ### The file -/

/-- `LogFileHeader`, with the fields that change. -/
structure Header where
  startFrameNo : ℕ
  frameCount : ℕ
  startChecksum : ℕ

def Header.lastFrameNo (h : Header) : Option ℕ :=
  if h.startFrameNo = 0 ∧ h.frameCount = 0 then none else some (h.startFrameNo + h.frameCount - 1)

/-- A frame as it is in the file. -/
structure Stored (α : Type*) where
  frame : Frame α
  checksum : ℕ

/-- A log file, by what was written at a byte offset; a file without a header is empty. -/
structure File (α : Type*) where
  header : Option Header
  frames : ℕ → Option (Stored α)

def File.empty : File α := ⟨none, fun _ => none⟩

/-- What is done to pages: the checksum after a page, given the one before it, and the encryption of
pages in the file, which is none when it is the identity. -/
structure Codec (α : Type*) where
  crc : ℕ → α → ℕ
  encrypt : α → α
  decrypt : α → α
  decrypt_encrypt : ∀ page, decrypt (encrypt page) = page

inductive ReadError
  | snapshotRequired
  | ahead
  | failed
  deriving DecidableEq

structure LogFile (α : Type*) where
  file : File α
  header : Header
  uncommittedFrameCount : ℕ
  uncommittedChecksum : ℕ
  committedChecksum : ℕ

namespace LogFile

/-- `size_of::<LogFileHeader>()` -/
def headerSize : ℕ := 64

def frameSize : ℕ := 24 + 4096

def absoluteByteOffset (nth : ℕ) : ℕ := headerSize + nth * frameSize

def nextByteOffset (log : LogFile α) : ℕ :=
  absoluteByteOffset (log.header.frameCount + log.uncommittedFrameCount)

def nextFrameNo (log : LogFile α) : ℕ :=
  log.header.startFrameNo + log.header.frameCount + log.uncommittedFrameCount

/-- `read_frame_byte_offset_mut`; there may be nothing to read. -/
def readFrame (codec : Codec α) (file : File α) (offset : ℕ) : Option (Stored α) :=
  (file.frames offset).map fun stored =>
    { stored with frame := { stored.frame with page := codec.decrypt stored.frame.page } }

def byteOffset (header : Header) (frameNo : ℕ) : Option ℕ :=
  if frameNo < header.startFrameNo ∨ header.startFrameNo + header.frameCount < frameNo then none
  else some (absoluteByteOffset (frameNo - header.startFrameNo))

/-- `frame` -/
def readAt (codec : Codec α) (file : File α) (header : Header) (frameNo : ℕ) :
    Except ReadError (Stored α) :=
  if frameNo < header.startFrameNo then .error .snapshotRequired
  else if header.startFrameNo + header.frameCount ≤ frameNo then .error .ahead
  else
    match (byteOffset header frameNo).bind (readFrame codec file) with
    | none => .error .failed
    | some stored => .ok stored

def frame (codec : Codec α) (log : LogFile α) (frameNo : ℕ) : Except ReadError (Stored α) :=
  readAt codec log.file log.header frameNo

def writeHeader (log : LogFile α) : LogFile α :=
  { log with file := { log.file with header := some log.header } }

/-- `LogFile::new`: the checksums of an empty file start at `0`, those of a log without frames at the
one of the header, and those of a log with frames at the one of the last frame. -/
def new (codec : Codec α) (file : File α) : Option (LogFile α) :=
  match file.header with
  | none => some (writeHeader ⟨file, ⟨0, 0, 0⟩, 0, 0, 0⟩)
  | some header =>
    if header.frameCount = 0 then
      some ⟨file, header, 0, header.startChecksum, header.startChecksum⟩
    else
      match readAt codec file header (header.startFrameNo + header.frameCount - 1) with
      | .error _ => none
      | .ok last => some ⟨file, header, 0, last.checksum, last.checksum⟩

def commit (log : LogFile α) : LogFile α :=
  writeHeader { log with
    header := { log.header with frameCount := log.header.frameCount + log.uncommittedFrameCount }
    uncommittedFrameCount := 0
    committedChecksum := log.uncommittedChecksum }

def rollback (log : LogFile α) : LogFile α :=
  { log with uncommittedFrameCount := 0, uncommittedChecksum := log.committedChecksum }

def setFrame (log : LogFile α) (offset : ℕ) (stored : Option (Stored α)) : LogFile α :=
  { log with file := { log.file with frames := Function.update log.file.frames offset stored } }

def pushPage (codec : Codec α) (log : LogFile α) (pageNo sizeAfter : ℕ) (page : α) : LogFile α :=
  let checksum := codec.crc log.uncommittedChecksum page
  let stored : Stored α := ⟨⟨log.nextFrameNo, pageNo, sizeAfter, codec.encrypt page⟩, checksum⟩
  { log.setFrame log.nextByteOffset (some stored) with
    uncommittedFrameCount := log.uncommittedFrameCount + 1
    uncommittedChecksum := checksum }

/-- The log that `do_compaction` puts in the place of the old one: it is made as one of an empty file,
then gets its header. -/
def successor (log : LogFile α) : LogFile α :=
  writeHeader ⟨File.empty, ⟨log.header.lastFrameNo.getD 0 + 1, 0, log.committedChecksum⟩, 0, 0, 0⟩

/-- `do_compaction`: where pages are uncommitted an assertion fails, and a log without frames is not
compacted. -/
def doCompaction (log : LogFile α) : LogFile α :=
  if log.uncommittedFrameCount = 0 ∧ log.header.frameCount ≠ 0 then log.successor else log

def framesIter (codec : Codec α) (log : LogFile α) : List (Option (Stored α)) :=
  (List.range log.header.frameCount).map fun nth =>
    readFrame codec log.file (absoluteByteOffset nth)

/-- `ReplicationLogger::compute_checksum`: the checksum of the log, `none` where a frame cannot be read
or has another checksum. -/
def computeChecksum (codec : Codec α) (log : LogFile α) : Option ℕ :=
  (log.framesIter codec).foldlM
    (fun sum stored => stored.bind fun stored =>
      if codec.crc sum stored.frame.page = stored.checksum then some stored.checksum else none)
    log.header.startChecksum

end LogFile

/-! ### Runs -/

/-- What is done to a log.  A page that could not be written leaves anything in its place. -/
inductive Action (α : Type*)
  | push (pageNo sizeAfter : ℕ) (page : α)
  | pushFailed (torn : Option (Stored α))
  | commit
  | rollback
  | compact
  | reopen

/-- One call, or a restart with what is in the file. -/
def step (codec : Codec α) (log : LogFile α) : Action α → Option (LogFile α)
  | .push pageNo sizeAfter page => some (log.pushPage codec pageNo sizeAfter page)
  | .pushFailed torn => some (log.setFrame log.nextByteOffset torn)
  | .commit => some log.commit
  | .rollback => some log.rollback
  | .compact => some log.doCompaction
  | .reopen => LogFile.new codec log.file

/-- The log of a new database. -/
def fresh : LogFile α := LogFile.writeHeader ⟨File.empty, ⟨0, 0, 0⟩, 0, 0, 0⟩

/-- What an action means for the pages that are committed and those that are not. -/
def specStep (s : Source α) : Action α → Source α
  | .push pageNo sizeAfter page => s.step (.push pageNo sizeAfter page)
  | .pushFailed _ => s
  | .commit => s.step .commit
  | .rollback => s.step .rollback
  | .compact => s.step .compact
  | .reopen => s.step .rollback

/-- The pages after a run, under the numbers that they were committed with. -/
def spec (actions : List (Action α)) : Source α := actions.foldl specStep Source.new

/-! ### Reading and writing the file -/

namespace LogFile

variable {codec : Codec α} {log : LogFile α} {i j : ℕ}

theorem absoluteByteOffset_ne (h : i ≠ j) : absoluteByteOffset i ≠ absoluteByteOffset j := by
  simp only [absoluteByteOffset, frameSize]
  omega

theorem readFrame_setFrame_of_ne {offset offset' : ℕ} (h : offset ≠ offset')
    (stored : Option (Stored α)) :
    readFrame codec (log.setFrame offset' stored).file offset = readFrame codec log.file offset := by
  rw [readFrame, readFrame, setFrame]
  dsimp only
  rw [Function.update_of_ne h]

theorem readFrame_pushPage (pageNo sizeAfter : ℕ) (page : α) :
    readFrame codec (log.pushPage codec pageNo sizeAfter page).file log.nextByteOffset =
      some ⟨⟨log.nextFrameNo, pageNo, sizeAfter, page⟩,
        codec.crc log.uncommittedChecksum page⟩ := by
  rw [readFrame, pushPage, setFrame]
  dsimp only
  rw [Function.update_self, Option.map_some, codec.decrypt_encrypt]

theorem readFrame_pushPage_of_ne {offset : ℕ} (h : offset ≠ log.nextByteOffset)
    (pageNo sizeAfter : ℕ) (page : α) :
    readFrame codec (log.pushPage codec pageNo sizeAfter page).file offset =
      readFrame codec log.file offset := readFrame_setFrame_of_ne h _

theorem byteOffset_eq {header : Header} {n : ℕ} (hstart : header.startFrameNo ≤ n)
    (hend : n < header.startFrameNo + header.frameCount) :
    byteOffset header n = some (absoluteByteOffset (n - header.startFrameNo)) := by
  rw [byteOffset, if_neg (by omega)]

theorem frame_ok_iff {n : ℕ} {stored : Stored α} : log.frame codec n = .ok stored ↔
    log.header.startFrameNo ≤ n ∧ n < log.header.startFrameNo + log.header.frameCount ∧
      readFrame codec log.file (absoluteByteOffset (n - log.header.startFrameNo)) = some stored := by
  rw [frame, readAt]
  split_ifs with hlt hle
  · exact iff_of_false nofun fun h => absurd h.1 (Nat.not_le_of_lt hlt)
  · exact iff_of_false nofun fun h => absurd h.2.1 (Nat.not_lt_of_le hle)
  · rw [byteOffset_eq (by omega) (by omega), Option.bind_some, and_iff_right (by omega),
      and_iff_right (by omega)]
    cases readFrame codec log.file (absoluteByteOffset (n - log.header.startFrameNo)) <;> simp

end LogFile

/-! ### The lists in the file -/

/-- The file has the frames of the list model, and the header in it is the one in memory. -/
structure Refines (codec : Codec α) (log : LogFile α) (abs : ReplicationLog.LogFile α) : Prop where
  disk : log.file.header = some log.header
  start : log.header.startFrameNo = abs.startFrameNo
  count : log.header.frameCount = abs.frames.length
  uncommitted : log.uncommittedFrameCount = abs.uncommitted.length
  frames : ∀ i frame, (abs.frames ++ abs.uncommitted)[i]? = some frame →
    ∃ stored, LogFile.readFrame codec log.file (LogFile.absoluteByteOffset i) = some stored ∧
      stored.frame = frame

namespace Refines

variable {codec : Codec α} {log : LogFile α} {abs : ReplicationLog.LogFile α}

theorem fresh (codec : Codec α) : Refines codec (DiskLog.fresh : LogFile α) (.new 0) :=
  ⟨rfl, rfl, rfl, rfl, fun i frame h => by simp [ReplicationLog.LogFile.new] at h⟩

variable (h : Refines codec log abs)
include h

theorem nextFrameNo : log.nextFrameNo = abs.nextFrameNo := by
  rw [LogFile.nextFrameNo, h.start, h.count, h.uncommitted]
  rfl

theorem lt_of_getElem? {i : ℕ} {frame : Frame α}
    (hi : (abs.frames ++ abs.uncommitted)[i]? = some frame) :
    i < log.header.frameCount + log.uncommittedFrameCount := by
  obtain ⟨hlt, -⟩ := List.getElem?_eq_some_iff.1 hi
  rw [length_append] at hlt
  rw [h.count, h.uncommitted]
  exact hlt

theorem offset_ne {i : ℕ} {frame : Frame α}
    (hi : (abs.frames ++ abs.uncommitted)[i]? = some frame) :
    LogFile.absoluteByteOffset i ≠ log.nextByteOffset :=
  LogFile.absoluteByteOffset_ne (Nat.ne_of_lt (h.lt_of_getElem? hi))

theorem pushFailed (torn : Option (Stored α)) :
    Refines codec (log.setFrame log.nextByteOffset torn) abs where
  __ := h
  frames i frame hi := by
    rw [LogFile.readFrame_setFrame_of_ne (h.offset_ne hi)]
    exact h.frames i frame hi

theorem push (pageNo sizeAfter : ℕ) (page : α) :
    Refines codec (log.pushPage codec pageNo sizeAfter page)
      (abs.pushPage pageNo sizeAfter page) where
  __ := h
  uncommitted := by
    show log.uncommittedFrameCount + 1 = (abs.uncommitted ++ [_]).length
    rw [h.uncommitted, length_append, length_singleton]
  frames i frame hi := by
    have hi : ((abs.frames ++ abs.uncommitted) ++
        [⟨abs.nextFrameNo, pageNo, sizeAfter, page⟩])[i]? = some frame := by
      rw [append_assoc]
      exact hi
    rw [getElem?_append] at hi
    split_ifs at hi with hlt
    · rw [LogFile.readFrame_pushPage_of_ne (h.offset_ne hi)]
      exact h.frames i frame hi
    · rw [getElem?_singleton] at hi
      split_ifs at hi with hzero
      cases hi
      have hnext : LogFile.absoluteByteOffset i = log.nextByteOffset := by
        rw [length_append] at hlt hzero
        rw [LogFile.nextByteOffset, h.count, h.uncommitted]
        congr 1
        omega
      rw [hnext, LogFile.readFrame_pushPage]
      exact ⟨_, rfl, by rw [h.nextFrameNo]⟩

theorem commit : Refines codec log.commit abs.commit where
  disk := rfl
  start := h.start
  count := by
    show log.header.frameCount + log.uncommittedFrameCount = (abs.frames ++ abs.uncommitted).length
    rw [h.count, h.uncommitted, length_append]
  uncommitted := rfl
  frames i frame hi := by
    refine h.frames i frame ?_
    rw [← hi]
    exact congrArg (fun l => l[i]?) (append_nil _).symm

theorem rollback : Refines codec log.rollback abs.rollback where
  __ := h
  uncommitted := rfl
  frames i frame hi := by
    refine h.frames i frame ?_
    have hi : (abs.frames ++ [])[i]? = some frame := hi
    rw [append_nil] at hi
    rw [List.getElem?_append_left (List.getElem?_eq_some_iff.1 hi).1, hi]

/-- The frames that the header counts are in the file. -/
theorem exists_stored {n : ℕ} (hstart : log.header.startFrameNo ≤ n)
    (hend : n < log.header.startFrameNo + log.header.frameCount) :
    ∃ stored, LogFile.readFrame codec log.file
        (LogFile.absoluteByteOffset (n - log.header.startFrameNo)) = some stored ∧
      abs.frames[n - log.header.startFrameNo]? = some stored.frame := by
  rw [h.count] at hend
  have hlt : n - log.header.startFrameNo < abs.frames.length := by omega
  obtain ⟨stored, hread, hframe⟩ := h.frames _ _
    (by rw [getElem?_append_left hlt, getElem?_eq_getElem hlt])
  exact ⟨stored, hread, by rw [getElem?_eq_getElem hlt, hframe]⟩

/-- **`frame` on the file is `frame` on the lists.** -/
theorem frame (n : ℕ) :
    match abs.frame n with
    | .ok frame => ∃ stored, log.frame codec n = .ok stored ∧ stored.frame = frame
    | .error .snapshotRequired => log.frame codec n = .error .snapshotRequired
    | .error .ahead => log.frame codec n = .error .ahead := by
  rw [LogFile.frame, LogFile.readAt, ReplicationLog.LogFile.frame, ← h.start]
  by_cases hlt : n < log.header.startFrameNo
  · simp only [hlt, if_true]
  simp only [hlt, if_false]
  cases hget : abs.frames[n - log.header.startFrameNo]? with
  | none =>
    have hle := getElem?_eq_none_iff.1 hget
    rw [if_pos (by rw [h.count]; omega)]
  | some frame =>
    have hlen := (List.getElem?_eq_some_iff.1 hget).1
    rw [← h.count] at hlen
    obtain ⟨stored, hread, hframe⟩ := h.exists_stored (n := n) (by omega) (by omega)
    rw [if_neg (by omega), LogFile.byteOffset_eq (by omega) (by omega), Option.bind_some, hread]
    exact ⟨stored, rfl, Option.some.inj (hframe.symm.trans hget)⟩

theorem of_frame_ok {n : ℕ} {stored : Stored α}
    (hok : log.frame codec n = .ok stored) :
    log.header.startFrameNo ≤ n ∧
      abs.frames[n - log.header.startFrameNo]? = some stored.frame := by
  obtain ⟨hstart, hend, hread⟩ := LogFile.frame_ok_iff.1 hok
  obtain ⟨stored', hread', hget⟩ := h.exists_stored hstart hend
  cases hread.symm.trans hread'
  exact ⟨hstart, hget⟩

theorem exists_frame_iff (n : ℕ) :
    (∃ stored, log.frame codec n = .ok stored) ↔
      log.header.startFrameNo ≤ n ∧ n < log.header.startFrameNo + log.header.frameCount := by
  constructor
  · rintro ⟨stored, hok⟩
    obtain ⟨hstart, hend, -⟩ := LogFile.frame_ok_iff.1 hok
    exact ⟨hstart, hend⟩
  · rintro ⟨hstart, hend⟩
    obtain ⟨stored, hread, -⟩ := h.exists_stored hstart hend
    exact ⟨stored, LogFile.frame_ok_iff.2 ⟨hstart, hend, hread⟩⟩

theorem canCompact_iff :
    (abs.uncommitted.isEmpty && !abs.frames.isEmpty) = true ↔
      log.uncommittedFrameCount = 0 ∧ log.header.frameCount ≠ 0 := by
  rw [h.uncommitted, h.count]
  simp [List.isEmpty_iff]

theorem compact :
    Refines codec log.doCompaction
      (if abs.uncommitted.isEmpty && !abs.frames.isEmpty then
        .new (abs.startFrameNo + abs.frames.length) else abs) := by
  rw [LogFile.doCompaction]
  by_cases hcan : log.uncommittedFrameCount = 0 ∧ log.header.frameCount ≠ 0
  · rw [if_pos hcan, if_pos (h.canCompact_iff.2 hcan)]
    refine ⟨rfl, ?_, rfl, rfl, fun i frame hi => by simp [ReplicationLog.LogFile.new] at hi⟩
    show log.header.lastFrameNo.getD 0 + 1 = abs.startFrameNo + abs.frames.length
    rw [Header.lastFrameNo, if_neg fun hzero => hcan.2 hzero.2, Option.getD_some, ← h.start, ← h.count]
    omega
  · rw [if_neg hcan, if_neg (mt h.canCompact_iff.1 hcan)]
    exact h

theorem reopen :
    ∃ log', LogFile.new codec log.file = some log' ∧ log'.file = log.file ∧
      Refines codec log' abs.rollback := by
  rw [LogFile.new, h.disk]
  dsimp only
  by_cases hzero : log.header.frameCount = 0
  · rw [if_pos hzero]
    exact ⟨_, rfl, rfl, h.disk, h.start, h.count, rfl, h.rollback.frames⟩
  · rw [if_neg hzero]
    obtain ⟨stored, hread⟩ := (h.exists_frame_iff
      (log.header.startFrameNo + log.header.frameCount - 1)).2 (by omega)
    rw [LogFile.frame] at hread
    rw [hread]
    exact ⟨_, rfl, rfl, h.disk, h.start, h.count, rfl, h.rollback.frames⟩

end Refines

/-! ### Runs of the file and of the lists -/

section Runs

variable {codec : Codec α} {log : LogFile α} {s : Source α}

/-- **Every action can be taken, and does to the file what it does to the lists.** -/
theorem step_refines (h : Refines codec log s.log) (a : Action α) :
    ∃ log', step codec log a = some log' ∧ Refines codec log' (specStep s a).log := by
  cases a with
  | push pageNo sizeAfter page => exact ⟨_, rfl, h.push pageNo sizeAfter page⟩
  | pushFailed torn => exact ⟨_, rfl, h.pushFailed torn⟩
  | commit => exact ⟨_, rfl, h.commit⟩
  | rollback => exact ⟨_, rfl, h.rollback⟩
  | compact =>
    refine ⟨_, rfl, ?_⟩
    have hcompact := h.compact
    show Refines codec log.doCompaction s.compact.log
    rw [Source.compact]
    split_ifs at hcompact ⊢ <;> exact hcompact
  | reopen =>
    obtain ⟨log', hlog', -, href⟩ := h.reopen
    exact ⟨log', hlog', href⟩

theorem run_refines (h : Refines codec log s.log) (actions : List (Action α)) :
    ∃ log', Run.exec (step codec) log actions = some log' ∧
      Refines codec log' (actions.foldl specStep s).log := by
  induction actions generalizing log s with
  | nil => exact ⟨log, rfl, h⟩
  | cons a actions ih =>
    obtain ⟨log₁, hstep, h₁⟩ := step_refines h a
    obtain ⟨log', hrun, href⟩ := ih h₁
    exact ⟨log', Run.exec_cons_iff.2 ⟨log₁, hstep, hrun⟩, href⟩

theorem specStep_inv (h : ForkLog.SourceInv s) (a : Action α) :
    ForkLog.SourceInv (specStep s a) := by
  cases a with
  | pushFailed torn => exact h
  | push pageNo sizeAfter page => exact h.step (.push pageNo sizeAfter page)
  | commit => exact h.step .commit
  | rollback | reopen => exact h.step .rollback
  | compact => exact h.step .compact

theorem spec_inv (actions : List (Action α)) : ForkLog.SourceInv (spec actions) :=
  foldlRecOn actions specStep ForkLog.SourceInv.new fun _ hs a _ => specStep_inv hs a

/-- What was pushed with a frame. -/
def content (frame : Frame α) : ℕ × ℕ × α := (frame.pageNo, frame.sizeAfter, frame.page)

/-- The calls that push pages. -/
def pushes (pages : List (ℕ × ℕ × α)) : List (Action α) :=
  pages.map fun page => .push page.1 page.2.1 page.2.2

theorem pushes_uncommitted (pages : List (ℕ × ℕ × α)) (s : Source α) :
    ((pushes pages).foldl specStep s).history = s.history ∧
      ((pushes pages).foldl specStep s).log.uncommitted.map content =
        s.log.uncommitted.map content ++ pages := by
  induction pages generalizing s with
  | nil => exact ⟨rfl, (append_nil _).symm⟩
  | cons page pages ih =>
    obtain ⟨hhistory, hpages⟩ := ih (specStep s (.push page.1 page.2.1 page.2.2))
    refine ⟨hhistory, hpages.trans ?_⟩
    show (s.log.uncommitted ++ [_]).map content ++ pages = _
    rw [map_append, append_assoc]
    rfl

/-- A commit adds the pages pushed since the last commit, or since a rollback after it. -/
theorem history_commit (actions : List (Action α)) (pages : List (ℕ × ℕ × α)) :
    (spec (actions ++ pushes pages ++ [.commit])).history.map content =
      (spec actions).history.map content ++ (spec actions).log.uncommitted.map content ++ pages := by
  obtain ⟨hhistory, hpages⟩ := pushes_uncommitted pages (spec actions)
  rw [spec, foldl_append, foldl_append]
  show (((pushes pages).foldl specStep (spec actions)).history ++
    ((pushes pages).foldl specStep (spec actions)).log.uncommitted).map content = _
  rw [map_append, hhistory, hpages, append_assoc]

theorem spec_rollback (actions : List (Action α)) :
    (spec (actions ++ [.rollback])).history = (spec actions).history ∧
      (spec (actions ++ [.rollback])).log.uncommitted = [] := by
  rw [spec, foldl_append]
  exact ⟨rfl, rfl⟩

/-- **Frames are found by their number.**  In every run `frame` finds exactly the frames that the header
counts, each with the page that was committed under its number; a commit adds the pages that were pushed
since the last one, without those that a rollback discards; and the numbers go on through compactions and
restarts. -/
theorem frame_of_run (codec : Codec α) (actions : List (Action α)) :
    ∃ log, Run.exec (step codec) fresh actions = some log ∧
      (∀ n, (∃ stored, log.frame codec n = .ok stored) ↔
        log.header.startFrameNo ≤ n ∧ n < log.header.startFrameNo + log.header.frameCount) ∧
      (∀ n stored, log.frame codec n = .ok stored →
        stored.frame.frameNo = n ∧ (spec actions).history[n]? = some stored.frame) ∧
      log.header.startFrameNo + log.header.frameCount = (spec actions).history.length ∧
      (∀ pages, (spec (actions ++ pushes pages ++ [.commit])).history.map content =
        (spec actions).history.map content ++ (spec actions).log.uncommitted.map content ++ pages) ∧
      ∀ pages, (spec (actions ++ [.rollback] ++ pushes pages ++ [.commit])).history.map content =
        (spec actions).history.map content ++ pages := by
  have hfresh : Refines codec fresh (Source.new : Source α).log := Refines.fresh codec
  obtain ⟨log, hrun, href⟩ := run_refines hfresh actions
  have href : Refines codec log (spec actions).log := href
  have hinv := spec_inv actions
  have hlen : log.header.startFrameNo + log.header.frameCount = (spec actions).history.length := by
    rw [href.start, href.count]
    exact hinv.logOf.length
  refine ⟨log, hrun, fun n => ?_, fun n stored hok => ?_, hlen, history_commit actions, fun pages => ?_⟩
  · exact href.exists_frame_iff n
  · obtain ⟨hstart, hget⟩ := href.of_frame_ok hok
    rw [href.start] at hget
    rw [hinv.frames, List.getElem?_drop, ← href.start, Nat.add_sub_cancel' hstart] at hget
    exact ⟨hinv.numbered n stored.frame hget, hget⟩
  · obtain ⟨hhistory, hnone⟩ := spec_rollback actions
    rw [history_commit, hhistory, hnone, List.map_nil, List.append_nil]

end Runs

end SqlAnywhere.Server.DiskLog
