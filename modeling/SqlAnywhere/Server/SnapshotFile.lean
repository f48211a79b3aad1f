import SqlAnywhere.Server.CommittedLog

/-!
# Snapshot files and the size of the database in them

The header of a snapshot file has the size of the database after its last frame.  The frames
themselves have lost it, so a stream of them gets it back on the frame it ends with.

* `SnapshotFile` — a snapshot and the size in its header
* `Made` — the files that compactions and merges make of a committed log
* `makeSnapshotStream` — the frames that are sent to a replica, from a number on
* `Made.stream` — they are the newest ones of the rest of the range, and the last one is the commit
-/

namespace SqlAnywhere.Server.ReplicationLog

open List Option

variable {α : Type*} {frames : List (Frame α)} {history : List (Frame α)}

/-- `SnapshotFile` with the `size_after` of its header. -/
structure SnapshotFile (α : Type*) extends Snapshot α where
  sizeAfter : ℕ
  deriving DecidableEq

/-- `SnapshotBuilder` with the `size_after` of its header. -/
structure FileBuilder (α : Type*) extends SnapshotBuilder α where
  sizeAfter : ℕ

namespace FileBuilder

def new : FileBuilder α := ⟨.new, 0⟩

def appendFrame (b : FileBuilder α) (frame : Frame α) : FileBuilder α where
  toSnapshotBuilder := b.toSnapshotBuilder.appendFrame frame
  sizeAfter := if b.endFrameNo ≤ frame.frameNo then frame.sizeAfter else b.sizeAfter

def appendFrames (b : FileBuilder α) : List (Frame α) → Option (FileBuilder α)
  | [] => some b
  | frame :: frames =>
    if b.lastSeenFrameNo.any (· ≤ frame.frameNo) then none
    else (b.appendFrame frame).appendFrames frames

end FileBuilder

/-- `perform_compaction` -/
def compactionFile (log : LogFile α) : Option (SnapshotFile α) :=
  (FileBuilder.new.appendFrames log.frames.reverse).bind fun b =>
    b.startFrameNo.map fun start => ⟨⟨start, b.endFrameNo, b.frames⟩, b.sizeAfter⟩

/-- `merge_snapshots`: the size is the one in the newest part. -/
def mergeFiles (parts : List (SnapshotFile α)) : Option (SnapshotFile α) :=
  match parts with
  | [] => none
  | first :: rest =>
    (FileBuilder.new.appendFrames
        ((first :: rest).reverse.flatMap fun part => part.frames)).map fun b =>
      ⟨⟨first.startFrameNo, ((first :: rest).getLast (by simp)).endFrameNo, b.frames⟩,
        ((first :: rest).getLast (by simp)).sizeAfter⟩

/-! ### Streams of snapshot files -/

/-- `into_stream_mut`: the frames as long as their numbers descend from the `previous` one. -/
def intoStreamMut (previous : Option ℕ) : List (Frame α) → List (Except Unit (Frame α))
  | [] => []
  | frame :: frames =>
    if previous.any (· ≤ frame.frameNo) then [.error ()]
    else .ok frame :: intoStreamMut (some frame.frameNo) frames

def intoStreamMutFrom (s : SnapshotFile α) (start : ℕ) : List (Except Unit (Frame α)) :=
  (intoStreamMut none s.frames).takeWhile fun
    | .ok frame => start ≤ frame.frameNo
    | .error _ => true

/-- Set the size on the last frame of a stream. -/
def closeStream (sizeAfter : ℕ) : List (Except Unit (Frame α)) → List (Except Unit (Frame α))
  | [] => []
  | .error e :: _ => [.error e]
  | [.ok frame] => [.ok { frame with sizeAfter }]
  | .ok frame :: rest => .ok frame :: closeStream sizeAfter rest

def makeSnapshotStream (s : SnapshotFile α) (offset : ℕ) : List (Except Unit (Frame α)) :=
  closeStream s.sizeAfter (intoStreamMutFrom s offset)

/-! ### The builder with and without the size -/

namespace FileBuilder

theorem appendFrames_toSnapshotBuilder {b b' : FileBuilder α}
    (h : b.appendFrames frames = some b') :
    b.toSnapshotBuilder.appendFrames frames = some b'.toSnapshotBuilder := by
  induction frames generalizing b with
  | nil =>
    cases h
    rfl
  | cons frame frames ih =>
    rw [appendFrames] at h
    rw [SnapshotBuilder.appendFrames]
    split at h
    · cases h
    · next hlt =>
      rw [if_neg hlt]
      exact ih h

theorem appendFrames_size {b b' : FileBuilder α}
    (h : b.appendFrames frames = some b') {last : ℕ} (hlast : b.lastSeenFrameNo = some last)
    (hle : last ≤ b.endFrameNo) : b'.sizeAfter = b.sizeAfter := by
  induction frames generalizing b last with
  | nil =>
    cases h
    rfl
  | cons frame frames ih =>
    rw [appendFrames] at h
    split at h
    · cases h
    rename_i hlt
    rw [hlast] at hlt
    simp only [any_some, decide_eq_true_eq] at hlt
    obtain ⟨hend, hseen⟩ := b.toSnapshotBuilder.appendFrame_end frame
    have hsize : (b.appendFrame frame).sizeAfter = b.sizeAfter := if_neg (by omega)
    rw [ih h hseen, hsize]
    show frame.frameNo ≤ (b.toSnapshotBuilder.appendFrame frame).endFrameNo
    rw [hend]
    exact Nat.le_max_left ..

end FileBuilder

theorem compactionFile_eq {log : LogFile α} {s : SnapshotFile α}
    (h : compactionFile log = some s) {last : Frame α} (hlast : log.frames.getLast? = some last) :
    performCompaction log = some s.toSnapshot ∧ s.sizeAfter = last.sizeAfter := by
  obtain ⟨b, hb, hs⟩ := bind_eq_some_iff.1 h
  obtain ⟨start, hstart, rfl⟩ := map_eq_some_iff.1 hs
  refine ⟨?_, ?_⟩
  · refine bind_eq_some_iff.2 ⟨b.toSnapshotBuilder, ?_, ?_⟩
    · exact FileBuilder.appendFrames_toSnapshotBuilder hb
    · rw [hstart]
      rfl
  · rw [← head?_reverse] at hlast
    obtain ⟨rest, hrest⟩ := head?_eq_some_iff.1 hlast
    rw [hrest, FileBuilder.appendFrames, if_neg (by simp [FileBuilder.new, SnapshotBuilder.new])]
      at hb
    obtain ⟨hend, hseen⟩ := SnapshotBuilder.new.appendFrame_end last
    have hfirst : (FileBuilder.new.appendFrame last).sizeAfter = last.sizeAfter := by
      have hle : (FileBuilder.new : FileBuilder α).endFrameNo ≤ last.frameNo :=
        Nat.zero_le last.frameNo
      rw [FileBuilder.appendFrame]
      rw [if_pos hle]
    refine (FileBuilder.appendFrames_size hb hseen ?_).trans hfirst
    show last.frameNo ≤ (SnapshotBuilder.new.appendFrame last).endFrameNo
    rw [hend]
    exact Nat.le_max_left ..

theorem mergeFiles_eq {parts : List (SnapshotFile α)} {s : SnapshotFile α}
    (h : mergeFiles parts = some s) :
    mergeSnapshots (parts.map SnapshotFile.toSnapshot) = some s.toSnapshot ∧
      ∃ last ∈ parts, s.sizeAfter = last.sizeAfter ∧ s.endFrameNo = last.endFrameNo := by
  cases parts with
  | nil => cases h
  | cons first rest =>
    obtain ⟨b, hb, rfl⟩ := map_eq_some_iff.1 h
    refine ⟨?_, _, getLast_mem (by simp), rfl, rfl⟩
    have hflat : ((first :: rest).map SnapshotFile.toSnapshot).reverse.flatMap Snapshot.frames =
        (first :: rest).reverse.flatMap fun part => part.frames := by
      rw [← map_reverse, flatMap_map]
    have hlast : ((first :: rest).map SnapshotFile.toSnapshot).getLast (by simp) =
        ((first :: rest).getLast (by simp)).toSnapshot := getLast_map ..
    have hb := FileBuilder.appendFrames_toSnapshotBuilder hb
    refine map_eq_some_iff.2 ⟨b.toSnapshotBuilder, hflat ▸ hb, ?_⟩
    exact congrArg (fun last : Snapshot α => (⟨first.startFrameNo, last.endFrameNo, b.frames⟩ :
      Snapshot α)) hlast

/-! ### The files of a committed log -/

open ForkLog

/-- The snapshot files of a log: a log that was swapped out is compacted, and snapshots without gaps
between them are merged. -/
inductive Made (history : List (Frame α)) : SnapshotFile α → Prop
  | compaction {log : LogFile α} {s : SnapshotFile α} :
      SwappedOut history (commitsOf history) log → compactionFile log = some s → Made history s
  | merge {parts : List (SnapshotFile α)} {s : SnapshotFile α} :
      (∀ part ∈ parts, Made history part) →
      contiguous (parts.map SnapshotFile.toSnapshot) = true → mergeFiles parts = some s →
      Made history s

namespace Made

variable {s : SnapshotFile α}

variable (h : Made history s) (hlog : Committed history)
include h hlog

theorem holds :
    Holds history (commitsOf history) s.toSnapshot := by
  induction h with
  | compaction hout hs =>
    obtain ⟨hmade, -⟩ := compactionFile_eq hs (getLast?_eq_some_getLast hout.ne)
    exact Holds.of_compaction hlog.sourceInv hout hmade
  | merge _ hcont hs ih =>
    refine Holds.of_merge hlog.sourceInv ?_ hcont (mergeFiles_eq hs).1
    intro part hpart
    obtain ⟨file, hfile, rfl⟩ := mem_map.1 hpart
    exact ih file hfile

theorem size :
    ∃ frame, history[s.endFrameNo]? = some frame ∧ s.sizeAfter = frame.sizeAfter := by
  induction h with
  | @compaction log s hout hs =>
    have hlast := getLast?_eq_some_getLast hout.ne
    obtain ⟨hmade, hsize⟩ := compactionFile_eq hs hlast
    have hpos : 0 < log.frames.length := length_pos_iff.2 hout.ne
    obtain ⟨first, last, hfirst, -, hlast', hlastNo⟩ := segment_ends hlog.numbered
      (show log.startFrameNo < log.startFrameNo + log.frames.length by omega)
      (hlog.commits_le hout.whole)
    have hmem := mem_of_getLast? hlast'
    rw [← hout.frames] at hfirst hlast'
    rw [hlast] at hlast'
    cases hlast'
    obtain hs := congrArg Snapshot.endFrameNo (performCompaction_eq hmade hfirst hlast)
    obtain ⟨i, hi⟩ := mem_iff_getElem?.1 (mem_of_mem_take (mem_of_mem_drop hmem))
    refine ⟨_, ?_, hsize⟩
    rw [show s.endFrameNo = i from hs.trans (hlog.numbered i _ hi)]
    exact hi
  | merge _ _ hs ih =>
    obtain ⟨-, last, hlast, hsize, hend⟩ := mergeFiles_eq hs
    rw [hend, hsize]
    exact ih last hlast

theorem size_ne_zero : s.sizeAfter ≠ 0 := by
  obtain ⟨frame, hframe, hsize⟩ := h.size hlog
  rcases (mem_commitsOf hlog.numbered).1 (h.holds hlog).whole with hzero | ⟨i, frame', hi, hne, heq⟩
  · exact absurd hzero (Nat.succ_ne_zero _)
  obtain rfl : s.endFrameNo = i := Nat.succ.inj heq
  rw [hframe] at hi
  cases hi
  rw [hsize]
  exact hne

end Made

/-! ### What is streamed of them -/

/-- Numbers that descend. -/
def Descending (frames : List (Frame α)) : Prop :=
  frames.Pairwise fun newer older => older.frameNo < newer.frameNo

/-- The assertion of `append_frames` holds as long as the numbers descend. -/
theorem FileBuilder.appendFrames_isSome_iff {b : FileBuilder α} :
    (b.appendFrames frames).isSome = true ↔
      Descending frames ∧ ∀ n ∈ b.lastSeenFrameNo, ∀ frame ∈ frames, frame.frameNo < n := by
  induction frames generalizing b with
  | nil => exact ⟨fun _ => ⟨List.Pairwise.nil, nofun⟩, fun _ => rfl⟩
  | cons frame frames ih =>
    obtain ⟨-, hseen⟩ := b.toSnapshotBuilder.appendFrame_end frame
    have hseen : (b.appendFrame frame).lastSeenFrameNo = some frame.frameNo := hseen
    rw [appendFrames]
    split
    · next hle =>
      refine ⟨nofun, ?_⟩
      rintro ⟨-, hlast⟩
      obtain ⟨n, hn, hle⟩ := (any_eq_true _ _).1 hle
      have := hlast n hn frame (mem_cons_self ..)
      exact absurd (of_decide_eq_true hle) (by omega)
    · next hlt =>
      rw [ih, hseen, Descending, Descending, pairwise_cons]
      constructor
      · rintro ⟨hdesc, hlast⟩
        refine ⟨⟨hlast frame.frameNo rfl, hdesc⟩, ?_⟩
        intro n hn frame' hframe'
        have hn' : ¬ n ≤ frame.frameNo := by
          intro hle
          exact hlt ((any_eq_true _ _).2 ⟨n, hn, decide_eq_true hle⟩)
        rcases mem_cons.1 hframe' with rfl | hframe'
        · omega
        · have := hlast frame.frameNo rfl frame' hframe'
          omega
      · rintro ⟨⟨hframe, hdesc⟩, -⟩
        refine ⟨hdesc, ?_⟩
        rintro n ⟨⟩ frame' hframe'
        exact hframe frame' hframe'

theorem FileBuilder.appendFrames_new_isSome :
    (FileBuilder.new.appendFrames frames).isSome = true ↔ Descending frames := by
  rw [appendFrames_isSome_iff, and_iff_left]
  rintro n ⟨⟩

theorem Descending.map_clear (h : Descending frames) :
    Descending (frames.map Frame.clear) :=
  pairwise_map.2 h

theorem segment_descending (h : Numbered history) (a b : ℕ) :
    Descending (segment history a b).reverse := by
  refine pairwise_reverse.2 ?_
  rw [pairwise_iff_getElem]
  intro i j hi hj hij
  rw [(h.getElem?_segment (getElem?_eq_getElem hi)).1,
    (h.getElem?_segment (getElem?_eq_getElem hj)).1]
  omega

theorem compacted_descending (h : Numbered history) (a b : ℕ) :
    Descending (compacted (segment history a b)) :=
  Descending.map_clear ((segment_descending h a b).sublist (Overwrite.newest_sublist _))

theorem intoStreamMut_descending {previous : Option ℕ}
    (h : Descending frames) (hprevious : ∀ n ∈ previous, ∀ frame ∈ frames, frame.frameNo < n) :
    intoStreamMut previous frames = frames.map .ok := by
  induction frames generalizing previous with
  | nil => rfl
  | cons frame frames ih =>
    obtain ⟨hframe, hframes⟩ := pairwise_cons.1 h
    have hlt : ¬ previous.any (· ≤ frame.frameNo) = true := by
      cases previous with
      | none => nofun
      | some n =>
        have := hprevious n rfl frame (mem_cons_self ..)
        simp only [any_some, decide_eq_true_eq]
        omega
    rw [intoStreamMut, if_neg hlt, map_cons, ih hframes]
    rintro n hn frame' hframe'
    cases hn
    exact hframe frame' hframe'

/-- The frames that are streamed are the newest ones of the rest of the range. -/
theorem Made.intoStreamMutFrom_eq {s : SnapshotFile α}
    (h : Made history s) (hlog : Committed history) {offset : ℕ} (hstart : s.startFrameNo ≤ offset)
    (hend : offset ≤ s.endFrameNo) :
    intoStreamMutFrom s offset =
      (compacted (segment history offset (s.endFrameNo + 1))).map .ok := by
  have hholds := h.holds hlog
  have hdesc := compacted_descending hlog.numbered s.startFrameNo (s.endFrameNo + 1)
  rw [← hholds.frames] at hdesc
  obtain ⟨rest, hrest, hnewer, holder⟩ := hholds.split hlog.numbered
    (hlog.commits_le hholds.whole) hstart hend
  rw [intoStreamMutFrom, intoStreamMut_descending hdesc (by rintro n ⟨⟩), hrest, map_append]
  refine takeWhile_append_of ?_ ?_
  · intro x hx
    obtain ⟨frame, hframe, rfl⟩ := mem_map.1 hx
    exact decide_eq_true (hnewer frame hframe).1
  · intro x hx
    obtain ⟨frame, hframe, rfl⟩ := mem_map.1 hx
    exact decide_eq_false (Nat.not_le_of_lt (holder frame hframe))

theorem closeStream_ok (sizeAfter : ℕ) (init : List (Frame α)) (last : Frame α) :
    closeStream sizeAfter ((init ++ [last]).map .ok) =
      (init ++ [{ last with sizeAfter }]).map .ok := by
  induction init with
  | nil => rfl
  | cons frame init ih =>
    cases init with
    | nil => rfl
    | cons frame' init =>
      exact congrArg (Except.ok frame :: ·) ih

/-- **The stream of a snapshot file** has the newest frames of the rest of its range, and ends with
the only one that is a commit. -/
theorem Made.stream {s : SnapshotFile α} (h : Made history s)
    (hlog : Committed history) {offset : ℕ} (hstart : s.startFrameNo ≤ offset)
    (hend : offset ≤ s.endFrameNo) :
    ∃ init last, compacted (segment history offset (s.endFrameNo + 1)) = init ++ [last] ∧
      makeSnapshotStream s offset =
        (init ++ [{ last with sizeAfter := s.sizeAfter }]).map .ok := by
  have hle := hlog.commits_le (h.holds hlog).whole
  obtain ⟨first, last, -, -, hlast, -⟩ := segment_ends hlog.numbered
    (show offset < s.endFrameNo + 1 by omega) hle
  obtain ⟨rest, hrest⟩ := compacted_head hlast
  have hne : compacted (segment history offset (s.endFrameNo + 1)) ≠ [] := by
    rw [hrest]
    nofun
  refine ⟨_, _, (dropLast_append_getLast hne).symm, ?_⟩
  rw [makeSnapshotStream, h.intoStreamMutFrom_eq hlog hstart hend, ← closeStream_ok,
    dropLast_append_getLast]

end SqlAnywhere.Server.ReplicationLog
