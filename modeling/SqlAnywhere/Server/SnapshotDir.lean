import Mathlib.Algebra.Ring.Nat
import SqlAnywhere.Lib.RowTable
import SqlAnywhere.Server.SnapshotFile

/-!
# The directory of the snapshots and their merger

The name of a snapshot file is made of the numbers of its first and its last frame.  The merger builds
one snapshot of many, puts it in the directory under the name of the range that they cover together,
and then removes those it was built of, by their names.

* `Dir` — the directory: a file is under the name that its header gives
* `mergeSnapshots` — the merger
* `build_spec` — what it builds has the newest frames of the whole range
* `merge_snapshots_iff` — when nothing is lost
-/

namespace SqlAnywhere.Server.SnapshotDir

open List Overwrite
open ReplicationLog ForkLog

variable {α : Type*} {name : Name}

/-- The name of a snapshot file, without the id of the log. -/
structure Name where
  startFrameNo : ℕ
  endFrameNo : ℕ
  deriving DecidableEq

/-- `find_snapshot_file` takes a snapshot for the frames in the range of its name. -/
def Name.Serves (name : Name) (frameNo : ℕ) : Prop :=
  name.startFrameNo ≤ frameNo ∧ frameNo ≤ name.endFrameNo

def nameOf (file : SnapshotFile α) : Name := ⟨file.startFrameNo, file.endFrameNo⟩

/-- The directory `snapshots`. -/
structure Dir (α : Type*) where
  files : RowTable Name (SnapshotFile α)
  named : ∀ name file, files.get name = some file → nameOf file = name

namespace Dir

def empty : Dir α := ⟨.empty, nofun⟩

/-- A file is renamed into the directory, over one of that name if there is one. -/
def put (dir : Dir α) (file : SnapshotFile α) : Dir α where
  files := dir.files.put (nameOf file) file
  named name file' h := by
    rw [RowTable.get_put] at h
    split at h
    · next heq =>
      cases h
      exact heq.symm
    · exact dir.named name file' h

def erase (dir : Dir α) (name : Name) : Dir α where
  files := dir.files.erase name
  named name' file h := by
    rw [RowTable.get_erase] at h
    split at h
    · cases h
    · exact dir.named name' file h

/-- `remove_file` fails where there is no file. -/
def remove (dir : Dir α) (name : Name) : Option (Dir α) :=
  if (dir.files.get name).isSome then some (dir.erase name) else none

def removeAll (dir : Dir α) (names : List Name) : Option (Dir α) := names.foldlM remove dir

/-- A frame that some snapshot of the directory is taken for. -/
def Serves (dir : Dir α) (frameNo : ℕ) : Prop :=
  ∃ name ∈ dir.files.rowids, name.Serves frameNo

end Dir

/-- `should_compact`, of names with the numbers of frames -/
def shouldCompact (snapshots : List (Name × ℕ)) (dbPageCount : ℕ) : Bool :=
  2 * dbPageCount ≤ (snapshots.map Prod.snd).sum || 32 < snapshots.length

/-- What `merge_snapshots` builds of the snapshots with these names. -/
def build (dir : Dir α) (names : List Name) : Option (SnapshotFile α) :=
  (names.mapM dir.files.get).bind mergeFiles

/-- `merge_snapshots`, `none` where it fails or panics: the directory after it, with the name and the
number of frames that it returns. -/
def mergeSnapshots (dir : Dir α) (names : List Name) : Option (Dir α × Name × ℕ) :=
  (build dir names).bind fun file =>
    ((dir.put file).removeAll names).map fun dir => (dir, nameOf file, file.frames.length)

/-- The list of the merger: in chronological order, each snapshot starting not after the end of the
one before it. -/
def NoGap : List Name → Prop
  | [] => True
  | [_] => True
  | a :: b :: rest =>
    a.startFrameNo ≤ b.startFrameNo ∧ b.startFrameNo ≤ a.endFrameNo + 1 ∧ NoGap (b :: rest)

/-! ### Removing files -/

namespace Dir

variable {dir dir' : Dir α} {names : List Name}

theorem mem_iff : name ∈ dir.files.rowids ↔ ∃ file, dir.files.get name = some file := by
  rw [dir.files.mem_iff, Option.isSome_iff_exists]

theorem get_put (file : SnapshotFile α) (name : Name) :
    (dir.put file).files.get name =
      if name = nameOf file then some file else dir.files.get name :=
  RowTable.get_put ..

theorem get_erase (name name' : Name) :
    (dir.erase name).files.get name' = if name' = name then none else dir.files.get name' :=
  RowTable.get_erase ..

theorem removeAll_cons (h : dir.removeAll (name :: names) = some dir') :
    (dir.erase name).removeAll names = some dir' := by
  obtain ⟨dir₁, h₁, h₂⟩ := Option.bind_eq_some_iff.1 h
  unfold remove at h₁
  split at h₁
  · cases h₁
    exact h₂
  · cases h₁

theorem files_removeAll (h : dir.removeAll names = some dir') :
    dir'.files = names.foldl RowTable.erase dir.files := by
  induction names generalizing dir with
  | nil =>
    cases h
    rfl
  | cons name names ih => exact ih (removeAll_cons h)

theorem get_removeAll (h : dir.removeAll names = some dir') (name : Name) :
    dir'.files.get name = if name ∈ names then none else dir.files.get name := by
  rw [files_removeAll h, RowTable.get_foldl_erase]

end Dir

/-! ### What the merger builds -/

section

variable {history : List (Frame α)}

theorem end_mem (hlog : Committed history) {s : Snapshot α}
    (h : Holds history (commitsOf history) s) : ∃ frame ∈ s.frames, frame.frameNo = s.endFrameNo := by
  have hle := h.le
  obtain ⟨-, last, -, -, hlast, hlastNo⟩ := segment_ends hlog.numbered
    (show s.startFrameNo < s.endFrameNo + 1 by omega) (hlog.commits_le h.whole)
  obtain ⟨rest, hrest⟩ := compacted_head hlast
  refine ⟨last.clear, ?_, Nat.succ.inj hlastNo⟩
  rw [h.frames, hrest]
  exact mem_cons_self ..

/-- Frames that come a second time make no difference. -/
theorem compacted_overlap (older both newer : List (Frame α)) :
    compacted (older ++ both ++ (both ++ newer)) = compacted (older ++ (both ++ newer)) := by
  have hreverse : (older ++ both ++ (both ++ newer)).reverse =
      (both ++ newer).reverse ++ (both.reverse ++ older.reverse) := by
    simp only [reverse_append, append_assoc]
  have hreverse' : (older ++ (both ++ newer)).reverse =
      (both ++ newer).reverse ++ older.reverse := reverse_append
  rw [compacted, compacted, hreverse, hreverse']
  refine congrArg (map Frame.clear) (newest_append_seen ?_ _)
  intro frame hframe
  refine mem_map_of_mem (mem_reverse.2 ?_)
  exact mem_append_left _ (mem_reverse.1 hframe)

/-- A snapshot and one of a range that starts in its range or just after it, and ends later. -/
theorem newest_overlapping (hlog : Committed history) {s : Snapshot α}
    (h : Holds history (commitsOf history) s) {a b : ℕ} (hstart : s.startFrameNo ≤ a)
    (hgap : a ≤ s.endFrameNo + 1) (hend : s.endFrameNo < b) :
    newest Frame.pageNo [] (compacted (segment history a b) ++ s.frames) =
      compacted (segment history s.startFrameNo b) := by
  have hle : s.endFrameNo + 1 ≤ history.length := hlog.commits_le h.whole
  have hsplit : segment history s.startFrameNo a ++ segment history a (s.endFrameNo + 1) =
      segment history s.startFrameNo (s.endFrameNo + 1) := segment_append hstart hgap (by omega)
  have hsplit' : segment history a (s.endFrameNo + 1) ++ segment history (s.endFrameNo + 1) b =
      segment history a b := segment_append hgap (by omega) hle
  have hsplit'' : segment history s.startFrameNo a ++ segment history a b =
      segment history s.startFrameNo b := segment_append hstart (by omega) (by omega)
  rw [h.frames, newest_compacted_append, ← hsplit, ← hsplit', compacted_overlap, hsplit', hsplit'']

/-- **Snapshots without a gap are merged to the newest frames of the whole range.** -/
theorem newest_merged (hlog : Committed history) {first : SnapshotFile α}
    {rest : List (SnapshotFile α)}
    (hall : ∀ part ∈ first :: rest, Holds history (commitsOf history) part.toSnapshot)
    (hgap : NoGap ((first :: rest).map nameOf))
    (hdesc : Descending ((first :: rest).reverse.flatMap fun part => part.frames)) :
    newest Frame.pageNo [] ((first :: rest).reverse.flatMap fun part => part.frames) =
        compacted (segment history first.startFrameNo
          (((first :: rest).getLast (by simp)).endFrameNo + 1)) ∧
      ∀ part ∈ first :: rest, first.startFrameNo ≤ part.startFrameNo ∧
        part.endFrameNo ≤ ((first :: rest).getLast (by simp)).endFrameNo := by
  have hfirst := hall first (mem_cons_self ..)
  induction rest generalizing first with
  | nil =>
    refine ⟨?_, ?_⟩
    · have hone := newest_compacted (segment history first.startFrameNo (first.endFrameNo + 1))
      rw [← hfirst.frames] at hone
      simpa [hfirst.frames] using hone
    · intro part hpart
      obtain rfl := mem_singleton.1 hpart
      exact ⟨Nat.le_refl _, Nat.le_refl _⟩
  | cons second rest ih =>
    obtain ⟨hle, hnext, hgap⟩ := hgap
    have hle : first.startFrameNo ≤ second.startFrameNo := hle
    have hsecond := hall second (mem_cons_of_mem _ (mem_cons_self ..))
    rw [reverse_cons, flatMap_append, flatMap_singleton] at hdesc ⊢
    obtain ⟨hdesc, -, hcross⟩ := pairwise_append.1 hdesc
    obtain ⟨hrest, hbounds⟩ := ih (fun p hp => hall p (mem_cons_of_mem _ hp)) hgap hdesc
      hsecond
    have hlast : (first :: second :: rest).getLast (by simp) =
        (second :: rest).getLast (by simp) := getLast_cons (by simp)
    rw [hlast]
    -- the last frame of the first part is older than that of the second
    have hlt : first.endFrameNo < second.endFrameNo := by
      obtain ⟨frame, hframe, hno⟩ := end_mem hlog hfirst
      obtain ⟨frame', hframe', hno'⟩ := end_mem hlog hsecond
      rw [← hno, ← hno']
      refine hcross frame' ?_ frame hframe
      exact mem_flatMap.2 ⟨second, by simp, hframe'⟩
    have hend := (hbounds second (mem_cons_self ..)).2
    refine ⟨?_, ?_⟩
    · rw [← newest_newest_append, hrest, ← newest_compacted (segment ..), newest_newest_append]
      exact newest_overlapping hlog hfirst hle hnext (by omega)
    · intro part hpart
      rcases mem_cons.1 hpart with rfl | hpart
      · exact ⟨Nat.le_refl _, by omega⟩
      · have := hbounds part hpart
        omega

end

/-- The range from the start of the first snapshot to the end of the last. -/
def hull : List Name → Name
  | [] => ⟨0, 0⟩
  | first :: rest => ⟨first.startFrameNo, ((first :: rest).getLast (by simp)).endFrameNo⟩

theorem mapM_spec {dir : Dir α} {names : List Name} {parts : List (SnapshotFile α)}
    (h : names.mapM dir.files.get = some parts) :
    parts.map nameOf = names ∧ ∀ part ∈ parts, dir.files.get (nameOf part) = some part := by
  induction names generalizing parts with
  | nil =>
    cases h
    exact ⟨rfl, nofun⟩
  | cons name names ih =>
    rw [mapM_cons] at h
    obtain ⟨part, hpart, h⟩ := Option.bind_eq_some_iff.1 h
    obtain ⟨rest, hrest, h⟩ := Option.bind_eq_some_iff.1 h
    cases h
    obtain ⟨hnames, hparts⟩ := ih hrest
    have hname := dir.named name part hpart
    refine ⟨by rw [map_cons, hname, hnames], ?_⟩
    intro p hp
    rcases mem_cons.1 hp with rfl | hp
    · rw [hname]
      exact hpart
    · exact hparts p hp

section

variable {history : List (Frame α)} {dir dir' : Dir α} {names : List Name}

/-- What `build` builds has the newest frames of the whole range, and contains every part. -/
theorem build_spec (hlog : Committed history) (hdir : ∀ name file, dir.files.get name = some file →
      Holds history (commitsOf history) file.toSnapshot)
    (hgap : NoGap names) {file : SnapshotFile α} (hbuild : build dir names = some file) :
    Holds history (commitsOf history) file.toSnapshot ∧ nameOf file = hull names ∧
      ∀ name ∈ names, file.startFrameNo ≤ name.startFrameNo ∧
        name.endFrameNo ≤ file.endFrameNo := by
  obtain ⟨parts, hparts, hfile⟩ := Option.bind_eq_some_iff.1 hbuild
  obtain ⟨rfl, hget⟩ := mapM_spec hparts
  cases parts with
  | nil => cases hfile
  | cons first rest =>
    obtain ⟨b, hb, rfl⟩ := Option.map_eq_some_iff.1 hfile
    have hall : ∀ part ∈ first :: rest, Holds history (commitsOf history) part.toSnapshot :=
      fun part hpart => hdir _ _ (hget part hpart)
    have hdesc := FileBuilder.appendFrames_new_isSome.1 (Option.isSome_of_eq_some hb)
    obtain ⟨hnewest, hbounds⟩ := newest_merged hlog hall hgap hdesc
    have hframes := SnapshotBuilder.appendFrames_frames
      (FileBuilder.appendFrames_toSnapshotBuilder hb)
    have hfirst := (hall first (mem_cons_self ..)).le
    have hlast := hbounds first (mem_cons_self ..)
    refine ⟨⟨?_, (hall _ (getLast_mem _)).whole, ?_⟩, ?_, ?_⟩
    · exact Nat.le_trans hfirst hlast.2
    · rw [hframes]
      show [] ++ (newest Frame.pageNo [] _).map Frame.clear = _
      rw [hnewest, map_clear_compacted, nil_append]
    · have hmap : ((first :: rest).map nameOf).getLast (by simp) =
          nameOf ((first :: rest).getLast (by simp)) := getLast_map ..
      exact congrArg (Name.mk first.startFrameNo) (congrArg Name.endFrameNo hmap.symm)
    · intro name hname
      obtain ⟨part, hpart, rfl⟩ := mem_map.1 hname
      exact hbounds part hpart

/-- **A merge keeps everything that was served, unless its result has the name of a part.**  When it
succeeds, the directory holds the newest frames of the whole range under the name of that range, and
every frame that was served is served, if and only if that name is not among those of the parts. -/
theorem merge_snapshots_iff (hlog : Committed history)
    (hdir : ∀ name file, dir.files.get name = some file →
      Holds history (commitsOf history) file.toSnapshot)
    (hgap : NoGap names) {made : Name × ℕ} (hok : mergeSnapshots dir names = some (dir', made)) :
    ((∃ file, dir'.files.get (hull names) = some file ∧
          file.frames = compacted (segment history (hull names).startFrameNo
            ((hull names).endFrameNo + 1))) ∧
        (∀ name ∈ names, ∀ n, name.Serves n → (hull names).Serves n) ∧
        ∀ n, dir.Serves n → dir'.Serves n) ↔
      hull names ∉ names := by
  obtain ⟨file, hfile, hok⟩ := Option.bind_eq_some_iff.1 hok
  obtain ⟨dir', hremove, heq⟩ := Option.map_eq_some_iff.1 hok
  obtain ⟨rfl, -⟩ := Prod.mk.inj heq
  obtain ⟨hholds, hname, hbounds⟩ := build_spec hlog hdir hgap hfile
  have hget := Dir.get_removeAll hremove
  constructor
  · rintro ⟨⟨file', hfile', -⟩, -⟩ hmem
    rw [hget, if_pos hmem] at hfile'
    cases hfile'
  · intro hnot
    have hserves : ∀ name ∈ names, ∀ n, name.Serves n → (hull names).Serves n := by
      rintro name hmem n ⟨hstart, hend⟩
      obtain ⟨hs, he⟩ := hbounds name hmem
      rw [← hname]
      exact ⟨Nat.le_trans hs hstart, Nat.le_trans hend he⟩
    have hmade : dir'.files.get (hull names) = some file := by
      rw [hget, if_neg hnot, Dir.get_put, if_pos hname.symm]
    refine ⟨⟨file, hmade, ?_⟩, hserves, ?_⟩
    · rw [← hname]
      exact hholds.frames
    · rintro n ⟨name, hname', hn⟩
      by_cases hmem : name ∈ names
      · exact ⟨hull names, Dir.mem_iff.2 ⟨file, hmade⟩, hserves name hmem n hn⟩
      refine ⟨name, Dir.mem_iff.2 ?_, hn⟩
      obtain ⟨file', hfile'⟩ := Dir.mem_iff.1 hname'
      rw [hget, if_neg hmem, Dir.get_put]
      split
      · exact ⟨file, rfl⟩
      · exact ⟨file', hfile'⟩

end

section Example

/-- Two transactions that write the first page. -/
def twoFrames : List (Frame ℕ) := [⟨0, 1, 1, 10⟩, ⟨1, 1, 1, 11⟩]

theorem twoFrames_committed : Committed twoFrames where
  numbered := by
    intro i frame hi
    rcases i with _ | _ | i
    · cases hi
      rfl
    · cases hi
      rfl
    · cases hi
  last := by decide

def olderFile : SnapshotFile ℕ := ⟨⟨0, 0, [⟨0, 1, 0, 10⟩]⟩, 1⟩

def newerFile : SnapshotFile ℕ := ⟨⟨1, 1, [⟨1, 1, 0, 11⟩]⟩, 1⟩

/-- A snapshot of each of them. -/
def twoFiles : Dir ℕ := (Dir.empty.put olderFile).put newerFile

theorem twoFiles_hold {file : SnapshotFile ℕ}
    (h : twoFiles.files.get name = some file) :
    Holds twoFrames (commitsOf twoFrames) file.toSnapshot := by
  rw [twoFiles, Dir.get_put] at h
  split at h
  · cases h
    exact ⟨by decide, by decide, rfl⟩
  · rw [Dir.get_put] at h
    split at h
    · cases h
      exact ⟨by decide, by decide, rfl⟩
    · cases h

theorem merge_snapshots_iff_two :
    ∃ dir' : Dir ℕ, dir'.files.rowids = [⟨0, 1⟩] ∧ ∀ n, twoFiles.Serves n → dir'.Serves n := by
  have hmerge : (mergeSnapshots twoFiles [⟨0, 0⟩, ⟨1, 1⟩]).map
      (fun r => (r.1.files.rowids, r.2)) = some ([⟨0, 1⟩], ⟨0, 1⟩, 1) := by decide +kernel
  obtain ⟨⟨dir', made⟩, hok, hrows⟩ := Option.map_eq_some_iff.1 hmerge
  refine ⟨dir', (Prod.mk.inj hrows).1, ?_⟩
  have hgap : NoGap [⟨0, 0⟩, ⟨1, 1⟩] := ⟨by decide, by decide, trivial⟩
  exact ((merge_snapshots_iff twoFrames_committed (fun _ _ h => twoFiles_hold h) hgap hok).2
    (by decide)).2.2

/-- A log after whose last transaction the database is half as large. -/
def shrinking : LogFile ℕ :=
  ⟨0, [⟨0, 1, 0, 10⟩, ⟨1, 2, 0, 11⟩, ⟨2, 3, 0, 12⟩, ⟨3, 4, 4, 13⟩, ⟨4, 1, 2, 14⟩], []⟩

/-- Its snapshot alone is enough to be merged, and then it is gone. -/
theorem merge_of_one_removes :
    (compactionFile shrinking).map (fun file =>
        (nameOf file, shouldCompact [(nameOf file, file.frames.length)] file.sizeAfter,
          (mergeSnapshots (Dir.empty.put file) [nameOf file]).map
            fun r => (r.1.files.rowids, r.2))) =
      some (⟨0, 4⟩, true, some ([], ⟨0, 4⟩, 4)) := by
  decide +kernel

end Example

end SqlAnywhere.Server.SnapshotDir
