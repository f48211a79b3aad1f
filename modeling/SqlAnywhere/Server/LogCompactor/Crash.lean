import SqlAnywhere.Server.LogCompactor

/-!
# Compaction through crashes and restarts

The snapshots, the logs that are to be compacted and the log cover what was committed one after the
other, and the list of the merger is the list of the snapshots.

* `Chain`, `LogChain` — ranges that follow each other
* `Inv` — what is on the disk and what the process has in memory, at any point between two steps
* `Careful` — the runs considered
* `covered_of_careful` — every committed frame stays covered in them
* `careless_compaction` — a run that is not careful
-/

namespace SqlAnywhere.Server.LogCompactor

open List Option
open ReplicationLog ForkLog SnapshotDir

variable {α : Type*} {n m path : ℕ} {s s' : Sys α} {unbuilt : List ℕ} {snaps : List Name}
  {p : Process} {toCompact : RowTable ℕ (Entry α)} {history : List (Frame α)}
  {file : SnapshotFile α}

/-- A list that is in strict order by a key is what it is sorted to, however it was shuffled. -/
theorem insertionSort_eq {β : Type*} {key : β → ℕ} {l l' : List β} (hperm : l.Perm l')
    (hsorted : l'.Pairwise fun a b => key a < key b) :
    l.insertionSort (fun a b => key a ≤ key b) = l' := by
  have : Std.Total fun a b : β => key a ≤ key b := ⟨fun a b => Nat.le_total (key a) (key b)⟩
  have : IsTrans β fun a b => key a ≤ key b := ⟨fun _ _ _ => Nat.le_trans⟩
  have hpair := pairwise_insertionSort (fun a b : β => key a ≤ key b) l
  have hperm' := (perm_insertionSort (fun a b : β => key a ≤ key b) l).trans hperm
  have hnodup : (l'.map key).Nodup := pairwise_map.2 (hsorted.imp Nat.ne_of_lt)
  refine hperm'.eq_of_pairwise ?_ hpair (hsorted.imp Nat.le_of_lt)
  intro a b ha hb hab hba
  exact inj_on_of_nodup_map hnodup (hperm'.mem_iff.1 ha) hb (Nat.le_antisymm hab hba)

/-! ### Ranges that follow each other -/

/-- The ranges of the names, one after the other, are the numbers from `a` up to `b`. -/
def Chain (a : ℕ) : List Name → ℕ → Prop
  | [], b => a = b
  | name :: names, b =>
    name.startFrameNo = a ∧ a ≤ name.endFrameNo ∧ Chain (name.endFrameNo + 1) names b

namespace Chain

variable {a b : ℕ} {names names' : List Name}

theorem append_iff :
    Chain a (names ++ names') b ↔ ∃ c, Chain a names c ∧ Chain c names' b := by
  induction names generalizing a with
  | nil => exact ⟨fun h => ⟨a, rfl, h⟩, fun ⟨c, hac, h⟩ => hac ▸ h⟩
  | cons name names ih =>
    constructor
    · rintro ⟨hstart, hle, h⟩
      obtain ⟨c, hc, h⟩ := ih.1 h
      exact ⟨c, ⟨hstart, hle, hc⟩, h⟩
    · rintro ⟨c, ⟨hstart, hle, hc⟩, h⟩
      exact ⟨hstart, hle, ih.2 ⟨c, hc, h⟩⟩

variable (h : Chain a names b)
include h

theorem le : a ≤ b := by
  induction names generalizing a with
  | nil => exact Nat.le_of_eq h
  | cons name names ih =>
    obtain ⟨-, hle, h⟩ := h
    have := ih h
    omega

theorem mem {name : Name} (hname : name ∈ names) :
    a ≤ name.startFrameNo ∧ name.startFrameNo ≤ name.endFrameNo ∧ name.endFrameNo < b := by
  induction names generalizing a with
  | nil => cases hname
  | cons first names ih =>
    obtain ⟨hstart, hle, h⟩ := h
    rcases mem_cons.1 hname with rfl | hname
    · have := h.le
      omega
    · have := ih h hname
      omega

theorem increasing : Increasing names := by
  induction names generalizing a with
  | nil => exact List.Pairwise.nil
  | cons name names ih =>
    obtain ⟨-, -, h⟩ := h
    refine pairwise_cons.2 ⟨?_, ih h⟩
    intro name' hname'
    exact (h.mem hname').1

theorem sorted :
    names.Pairwise fun x y => x.startFrameNo < y.startFrameNo := by
  refine h.increasing.imp_of_mem ?_
  intro x y hx _ hxy
  have := (h.mem hx).2.1
  omega

theorem serves (ha : a ≤ n) (hb : n < b) :
    ∃ name ∈ names, name.Serves n := by
  induction names generalizing a with
  | nil =>
    have h : a = b := h
    omega
  | cons name names ih =>
    obtain ⟨hstart, -, h⟩ := h
    by_cases hn : n ≤ name.endFrameNo
    · exact ⟨name, mem_cons_self .., by rw [hstart]; exact ha, hn⟩
    · obtain ⟨name', hname', hserves⟩ := ih h (by omega)
      exact ⟨name', mem_cons_of_mem _ hname', hserves⟩

theorem noGap : NoGap names := by
  induction names generalizing a with
  | nil => trivial
  | cons name names ih =>
    obtain ⟨hstart, hle, h⟩ := h
    cases names with
    | nil => trivial
    | cons name' names =>
      have hnext : name'.startFrameNo = name.endFrameNo + 1 := h.1
      exact ⟨by omega, by omega, ih h⟩

theorem getLast (hne : names ≠ []) :
    (names.getLast hne).endFrameNo + 1 = b := by
  induction names generalizing a with
  | nil => exact absurd rfl hne
  | cons name names ih =>
    obtain ⟨-, -, h⟩ := h
    cases names with
    | nil => exact h
    | cons name' names =>
      exact ih h _

theorem hull (hne : names ≠ []) : Chain a [hull names] b := by
  cases names with
  | nil => exact absurd rfl hne
  | cons name names =>
    have hlast := h.getLast hne
    obtain ⟨hstart, hle, h⟩ := h
    have := h.le
    exact ⟨hstart, show a ≤ ((name :: names).getLast (by simp)).endFrameNo by omega, hlast⟩

omit h in
theorem eq_nil (h : Chain a names a) : names = [] := by
  cases names with
  | nil => rfl
  | cons name names =>
    obtain ⟨-, hle, h⟩ := h
    have := h.le
    omega

theorem hull_notMem (htwo : 2 ≤ names.length) :
    SnapshotDir.hull names ∉ names := by
  intro hmem
  obtain ⟨hstart, -, hend⟩ := h.hull (ne_nil_of_mem hmem)
  obtain ⟨before, after, hnames⟩ := append_of_mem hmem
  rw [hnames] at h
  obtain ⟨c, hbefore, hc, -, hafter⟩ := append_iff.1 h
  -- nothing comes before the hull or after it
  rw [← hc, hstart] at hbefore
  rw [show _ = b from hend] at hafter
  rw [hnames, hbefore.eq_nil, hafter.eq_nil] at htwo
  simp at htwo

end Chain

/-- The logs with these paths have the frames from `a` up to `b`, one after the other. -/
def LogChain (toCompact : RowTable ℕ (Entry α)) (a : ℕ) : List ℕ → ℕ → Prop
  | [], b => a = b
  | path :: paths, b =>
    ∃ log, toCompact.get path = some (.log log) ∧ log.startFrameNo = a ∧
      LogChain toCompact (a + log.frames.length) paths b

namespace LogChain

variable {toCompact' : RowTable ℕ (Entry α)} {a b : ℕ} {paths paths' : List ℕ}

theorem append_iff :
    LogChain toCompact a (paths ++ paths') b ↔
      ∃ c, LogChain toCompact a paths c ∧ LogChain toCompact c paths' b := by
  induction paths generalizing a with
  | nil => exact ⟨fun h => ⟨a, rfl, h⟩, fun ⟨c, hac, h⟩ => hac ▸ h⟩
  | cons path paths ih =>
    constructor
    · rintro ⟨log, hlog, hstart, h⟩
      obtain ⟨c, hc, h⟩ := ih.1 h
      exact ⟨c, ⟨log, hlog, hstart, hc⟩, h⟩
    · rintro ⟨c, ⟨log, hlog, hstart, hc⟩, h⟩
      exact ⟨log, hlog, hstart, ih.2 ⟨c, hc, h⟩⟩

variable (h : LogChain toCompact a paths b)
include h

theorem of_logs
    (hlogs : ∀ path ∈ paths, ∀ log, toCompact.get path = some (.log log) →
      toCompact'.get path = some (.log log)) : LogChain toCompact' a paths b := by
  induction paths generalizing a with
  | nil => exact h
  | cons path paths ih =>
    obtain ⟨log, hlog, hstart, h⟩ := h
    exact ⟨log, hlogs path (mem_cons_self ..) log hlog, hstart,
      ih h fun p hp => hlogs p (mem_cons_of_mem _ hp)⟩

theorem serves (ha : a ≤ n) (hb : n < b) :
    ∃ path log frame, toCompact.get path = some (.log log) ∧ log.frame n = .ok frame := by
  induction paths generalizing a with
  | nil =>
    have h : a = b := h
    omega
  | cons path paths ih =>
    obtain ⟨log, hlog, rfl, h⟩ := h
    by_cases hn : n < log.startFrameNo + log.frames.length
    · obtain ⟨frame, hframe⟩ := log.exists_frame ha hn
      exact ⟨path, log, frame, hlog, hframe⟩
    · exact ih h (by omega)

theorem sorted
    (hne : ∀ path log, toCompact.get path = some (.log log) → log.frames ≠ []) :
    paths.Pairwise fun x y => Sys.startOf toCompact x < Sys.startOf toCompact y := by
  have hmem : ∀ {a : ℕ} {paths : List ℕ}, LogChain toCompact a paths b → ∀ path ∈ paths,
      a ≤ Sys.startOf toCompact path := by
    intro a paths h path hpath
    induction paths generalizing a with
    | nil => cases hpath
    | cons first paths ih =>
      obtain ⟨log, hlog, hstart, h⟩ := h
      rcases mem_cons.1 hpath with rfl | hpath
      · rw [Sys.startOf, hlog]
        exact Nat.le_of_eq hstart.symm
      · have := ih h hpath
        omega
  induction paths generalizing a with
  | nil => exact List.Pairwise.nil
  | cons path paths ih =>
    obtain ⟨log, hlog, hstart, h⟩ := h
    refine pairwise_cons.2 ⟨?_, ih h⟩
    intro path' hpath'
    have hle := hmem h path' hpath'
    have hpos : 0 < log.frames.length := length_pos_iff.2 (hne path log hlog)
    have hpath : Sys.startOf toCompact path = a := by
      rw [Sys.startOf, hlog]
      exact hstart
    omega

end LogChain

/-! ### What is built -/

theorem compactionFile_spec (hlog : Committed history) {log : LogFile α}
    (h : SwappedOut history (commitsOf history) log) :
    ∃ file, compactionFile log = some file ∧
      Holds history (commitsOf history) file.toSnapshot ∧ file.startFrameNo = log.startFrameNo ∧
      file.endFrameNo + 1 = log.startFrameNo + log.frames.length := by
  have hpos : 0 < log.frames.length := length_pos_iff.2 h.ne
  obtain ⟨first, last, hfirst, hfirstNo, hlast, hlastNo⟩ := segment_ends hlog.numbered
    (show log.startFrameNo < log.startFrameNo + log.frames.length by omega)
    (hlog.commits_le h.whole)
  rw [← h.frames] at hfirst hlast
  have hdesc : Descending log.frames.reverse := by
    rw [h.frames]
    exact segment_descending hlog.numbered ..
  obtain ⟨b, hb⟩ := isSome_iff_exists.1 (FileBuilder.appendFrames_new_isSome.2 hdesc)
  have hstart := SnapshotBuilder.appendFrames_start
    (FileBuilder.appendFrames_toSnapshotBuilder hb) rfl
    (show log.frames.reverse.getLast? = some first by rw [getLast?_reverse, hfirst])
  have hfile : compactionFile log =
      some ⟨⟨first.frameNo, b.endFrameNo, b.frames⟩, b.sizeAfter⟩ := by
    rw [compactionFile, hb, bind_some, hstart]
    rfl
  obtain ⟨hmade, -⟩ := compactionFile_eq hfile hlast
  refine ⟨_, hfile, Holds.of_compaction hlog.sourceInv h hmade, hfirstNo, ?_⟩
  have hend := congrArg Snapshot.endFrameNo (performCompaction_eq hmade hfirst hlast)
  have hend : b.endFrameNo = last.frameNo := hend
  show b.endFrameNo + 1 = _
  omega

/-- Snapshots whose ranges follow each other can be merged. -/
theorem build_isSome (hlog : Committed history) {dir : Dir α}
    (hdir : ∀ name file, dir.files.get name = some file →
      Holds history (commitsOf history) file.toSnapshot)
    {names : List Name} (hmem : ∀ name ∈ names, name ∈ dir.files.rowids) (hne : names ≠ [])
    {a b : ℕ} (hchain : Chain a names b) : ∃ file, build dir names = some file := by
  -- the files are there, and their frames, from the last one on, descend
  have hfiles : ∃ parts, names.mapM dir.files.get = some parts ∧
      Descending (parts.reverse.flatMap fun part => part.frames) ∧
      ∀ part ∈ parts, ∀ frame ∈ part.frames, a ≤ frame.frameNo := by
    clear hne
    induction names generalizing a with
    | nil => exact ⟨[], rfl, List.Pairwise.nil, nofun⟩
    | cons name names ih =>
      obtain ⟨hstart, hle, hchain⟩ := hchain
      obtain ⟨parts, hparts, hdesc, hlower⟩ :=
        ih (fun n hn => hmem n (mem_cons_of_mem _ hn)) hchain
      obtain ⟨file, hfile⟩ := Dir.mem_iff.1 (hmem name (mem_cons_self ..))
      have hholds := hdir name file hfile
      have hname := dir.named name file hfile
      have hrange : ∀ frame ∈ file.frames, a ≤ frame.frameNo ∧
          frame.frameNo ≤ name.endFrameNo := by
        intro frame hframe
        rw [hholds.frames] at hframe
        obtain ⟨frame', hframe', rfl⟩ := mem_compacted hframe
        have hseg := hlog.numbered.of_mem_segment hframe'
        have hs : file.startFrameNo = name.startFrameNo := congrArg Name.startFrameNo hname
        have he : file.endFrameNo = name.endFrameNo := congrArg Name.endFrameNo hname
        have : frame'.clear.frameNo = frame'.frameNo := rfl
        omega
      refine ⟨file :: parts, ?_, ?_, ?_⟩
      · rw [mapM_cons, hfile, hparts]
        rfl
      · rw [reverse_cons, flatMap_append, flatMap_singleton]
        refine pairwise_append.2 ⟨hdesc, ?_, ?_⟩
        · rw [hholds.frames]
          exact compacted_descending hlog.numbered ..
        · intro newer hnewer older holder
          obtain ⟨part, hpart, hnewer⟩ := mem_flatMap.1 hnewer
          have := hlower part (mem_reverse.1 hpart) newer hnewer
          have := (hrange older holder).2
          omega
      · intro part hpart frame hframe
        rcases mem_cons.1 hpart with rfl | hpart
        · exact (hrange frame hframe).1
        · have := hlower part hpart frame hframe
          omega
  obtain ⟨parts, hparts, hdesc, -⟩ := hfiles
  obtain ⟨b, hb⟩ := isSome_iff_exists.1 (FileBuilder.appendFrames_new_isSome.2 hdesc)
  rw [build, hparts, bind_some]
  cases parts with
  | nil =>
    obtain ⟨hnames, -⟩ := mapM_spec hparts
    exact absurd hnames.symm hne
  | cons first rest =>
    rw [mergeFiles, hb]
    exact ⟨_, rfl⟩

/-! ### The invariant -/

/-- The log whose snapshot is in its place while it is still there. -/
def Compactor.built : Compactor → List ℕ
  | .renamed path _ _ _ => [path]
  | .registered path => [path]
  | _ => []

/-- The snapshot that is not registered yet. -/
def Compactor.waiting : Compactor → List Name
  | .renamed _ name _ _ => [name]
  | _ => []

/-- The parts that are still there while their snapshot is in its place. -/
def Merger.leftover : Merger → List Name
  | .running _ (some (.removing _ parts)) => parts
  | _ => []

def Process.inChannel (p : Process) : List Name := p.channel.toList.map Prod.fst

/-- What is in the files. -/
structure Sound (s : Sys α) : Prop where
  committed : Committed s.history
  log : LogOf s.history s.log
  holds : ∀ name file, s.snapshots.files.get name = some file →
    Holds s.history (commitsOf s.history) file.toSnapshot
  logs : ∀ path log, s.toCompact.get path = some (.log log) →
    SwappedOut s.history (commitsOf s.history) log

/-- Which files there are: the snapshots `snaps` and the logs `unbuilt` that are to be compacted, one
after the other, and the log `built` and the snapshots `leftover` that a snapshot was made of. -/
structure Placed (s : Sys α) (snaps : List Name) (unbuilt : List ℕ) (m : ℕ) (built : List ℕ)
    (leftover : List Name) : Prop where
  chain : Chain 0 snaps m
  logChain : LogChain s.toCompact m unbuilt s.log.startFrameNo
  dir : s.snapshots.files.rowids.Perm (snaps ++ leftover)
  leftover_lt : ∀ name ∈ leftover, name.endFrameNo < m
  paths : ∀ path, (∃ log, s.toCompact.get path = some (.log log)) ↔ path ∈ built ++ unbuilt
  nodup : (built ++ unbuilt).Nodup

/-- What the process knows of them. -/
structure Knows (s : Sys α) (p : Process) (snaps : List Name) (unbuilt : List ℕ) : Prop where
  moving : ∀ path, p.moving = some path →
    s.log.frames ≠ [] ∧ ∀ log, s.toCompact.get path ≠ some (.log log)
  queue : p.queue = p.compactor.built ++ unbuilt
  compactor : p.compactor ≠ .stopped
  merger : p.merger ≠ .stopped
  lists : ∃ old, old ++ p.inChannel ++ p.compactor.waiting = snaps ∧
    (p.merger ≠ .starting → old = p.merger.working)
  two : ∀ snapshots parts, p.merger = .running snapshots (some (.building parts)) →
    2 ≤ parts.length

structure Up (s : Sys α) (p : Process) (snaps : List Name) (unbuilt : List ℕ) (m : ℕ) : Prop where
  sound : Sound s
  placed : Placed s snaps unbuilt m p.compactor.built p.merger.leftover
  knows : Knows s p snaps unbuilt

/-- What holds between any two steps. -/
def Inv (s : Sys α) : Prop :=
  match s.process with
  | none => Sound s ∧ ∃ snaps unbuilt m, Placed s snaps unbuilt m [] []
  | some p => ∃ snaps unbuilt m, Up s p snaps unbuilt m

/-- The list that the merger gives to a task when it receives the next snapshot. -/
def Process.nextMerge (p : Process) : Option (List (Name × ℕ)) :=
  match p.merger, p.channel with
  | .running snapshots none, some (name, count, dbPageCount) =>
    if shouldCompact (snapshots ++ [(name, count)]) dbPageCount then
      some (snapshots ++ [(name, count)])
    else none
  | _, _ => none

/-- **The steps after which the directories can be read again**: a crash does not come while a log or
a part is still there of which the snapshot is in its place; the merger reads the directory before it
holds a snapshot that is then registered; and a merge has two parts. -/
def Careful (s : Sys α) : Action α → Prop
  | .crash => ∀ p ∈ s.process, p.compactor.built = [] ∧ p.merger.leftover = []
  | .init => ∀ p ∈ s.process, p.inChannel = [] ∧ p.compactor.waiting = []
  | .receive => ∀ p ∈ s.process, ∀ parts ∈ p.nextMerge, 2 ≤ parts.length
  | _ => True

theorem Placed.covered {snaps leftover : List Name} {unbuilt built : List ℕ}
    (h : Placed s snaps unbuilt m built leftover) (hsound : Sound s)
    (hn : n < s.history.length) : Covered s n := by
  by_cases hm : n < m
  · obtain ⟨name, hname, hserves⟩ := h.chain.serves (Nat.zero_le n) hm
    exact .inr (.inr ⟨name, h.dir.mem_iff.2 (mem_append_left _ hname), hserves⟩)
  · by_cases hlog : n < s.log.startFrameNo
    · exact .inr (.inl (h.logChain.serves (by omega) hlog))
    · exact .inl (hsound.log.exists_frame (by omega) hn)

theorem Inv.covered (h : Inv s) (hn : n < s.history.length) : Covered s n := by
  unfold Inv at h
  split at h
  · obtain ⟨hsound, snaps, unbuilt, m, hplaced⟩ := h
    exact hplaced.covered hsound hn
  · obtain ⟨snaps, unbuilt, m, hup⟩ := h
    exact hup.placed.covered hup.sound hn

theorem Up.increasing (h : Up s p snaps unbuilt m) : Increasing p.merger.working := by
  obtain ⟨old, hold, hworking⟩ := h.knows.lists
  by_cases hstart : p.merger = .starting
  · rw [hstart]
    exact List.Pairwise.nil
  · rw [← hworking hstart]
    have hsnaps := h.placed.chain.increasing
    rw [← hold, append_assoc] at hsnaps
    exact (pairwise_append.1 hsnaps).1

theorem Up.inv (hp : s.process = some p) (h : Up s p snaps unbuilt m) : Inv s := by
  unfold Inv
  rw [hp]
  exact ⟨snaps, unbuilt, m, h⟩

/-! ### The steps of the logger -/

namespace Up

variable (h : Up s p snaps unbuilt m)
include h

theorem commit (hmoving : p.moving = none) (pages : List (ℕ × α))
    (last : ℕ × α) {sizeAfter : ℕ} (hsize : sizeAfter ≠ 0) :
    Up (s.commit (transaction s.history.length pages last sizeAfter)) p snaps unbuilt m where
  sound :=
    { committed := committed_append h.sound.committed pages last hsize
      log := h.sound.log.append _
      holds := fun name file hfile =>
        holds_append h.sound.committed (h.sound.holds name file hfile) _
      logs := fun path log hlog =>
        swappedOut_append h.sound.committed (h.sound.logs path log hlog) _ }
  placed := { h.placed with }
  knows :=
    { h.knows with
      moving := by
        intro path hpath
        rw [hmoving] at hpath
        cases hpath }

/-- A file of `to_compact` is written that is no log, and was none. -/
theorem put_blank {entry : Entry α}
    (hentry : ∀ log, entry ≠ .log log) (hold : ∀ log, s.toCompact.get path ≠ some (.log log))
    (hframes : s.log.frames ≠ []) :
    Up { s with
      toCompact := s.toCompact.put path entry
      process := some { p with moving := some path } }
      { p with moving := some path } snaps unbuilt m := by
  -- the logs are the same
  have hlogs : ∀ path' log, (s.toCompact.put path entry).get path' = some (.log log) ↔
      s.toCompact.get path' = some (.log log) := by
    intro path' log
    rw [RowTable.get_put]
    split
    · next heq =>
      rw [heq]
      exact ⟨fun h => absurd (some.inj h) (hentry log), fun h => absurd h (hold log)⟩
    · exact Iff.rfl
  refine ⟨{ h.sound with logs := ?_ }, { h.placed with logChain := ?_, paths := ?_ },
    { h.knows with moving := ?_ }⟩
  · intro path' log hlog
    exact h.sound.logs path' log ((hlogs path' log).1 hlog)
  · exact h.placed.logChain.of_logs fun path' _ log => (hlogs path' log).2
  · intro path'
    rw [← h.placed.paths path']
    exact exists_congr (hlogs path')
  · rintro path' ⟨⟩
    refine ⟨hframes, ?_⟩
    intro log hlog
    exact hold log ((hlogs path log).1 hlog)

theorem create (hstep : s.create p path = some s') : Inv s' := by
  unfold Sys.create at hstep
  split_ifs at hstep with hcan
  cases hstep
  obtain ⟨-, hframes, hpath⟩ := hcan
  refine inv rfl (h.put_blank nofun ?_ hframes)
  intro log hlog
  exact hpath ((s.toCompact.mem_iff path).2 (by rw [hlog]; rfl))

theorem writeHeader (hp : s.process = some p)
    (hstep : s.writeHeader p = some s') : Inv s' := by
  obtain ⟨path, hpath, rfl⟩ := map_eq_some_iff.1 hstep
  obtain ⟨hframes, hold⟩ := h.knows.moving path hpath
  have hput := h.put_blank (show ∀ log, (Entry.header : Entry α) ≠ .log log from nofun) hold hframes
  have hsame : ({ p with moving := some path } : Process) = p := by rw [← hpath]
  rw [hsame, ← hp] at hput
  exact hput.inv hp

theorem swap (hstep : s.swap p = some s') : Inv s' := by
  obtain ⟨path, hpath, hstep⟩ := bind_eq_some_iff.1 hstep
  obtain ⟨hframes, hold⟩ := h.knows.moving path hpath
  split at hstep
  swap
  · cases hstep
  cases hstep
  have hlen := h.sound.log.length
  have hout : SwappedOut s.history (commitsOf s.history) s.log := by
    refine ⟨hframes, ?_, ?_⟩
    · rw [hlen]
      exact h.sound.committed.last
    · rw [hlen, segment_length]
      exact h.sound.log.frames
  have hnot : path ∉ p.compactor.built ++ unbuilt := by
    intro hmem
    obtain ⟨log, hlog⟩ := (h.placed.paths path).2 hmem
    exact hold log hlog
  have hget : ∀ path', path' ≠ path →
      (s.toCompact.put path (.log s.log)).get path' = s.toCompact.get path' := by
    intro path' hne
    rw [RowTable.get_put, if_neg hne]
  have hself : (s.toCompact.put path (.log s.log)).get path = some (.log s.log) := by
    rw [RowTable.get_put, if_pos rfl]
  refine inv rfl (show Up _ _ snaps (unbuilt ++ [path]) m from
    ⟨{ h.sound with log := h.sound.log.swapped, logs := ?_ },
      { h.placed with logChain := ?_, paths := ?_, nodup := ?_ },
      { h.knows with moving := ?_, queue := ?_ }⟩)
  · intro path' log hlog
    by_cases heq : path' = path
    · rw [heq, hself] at hlog
      cases hlog
      exact hout
    · rw [hget path' heq] at hlog
      exact h.sound.logs path' log hlog
  · refine LogChain.append_iff.2 ⟨s.log.startFrameNo, ?_, s.log, hself, rfl, rfl⟩
    refine h.placed.logChain.of_logs ?_
    intro path' hpath' log hlog
    rw [hget path' fun heq => hnot (mem_append_right _ (heq ▸ hpath'))]
    exact hlog
  · intro path'
    rw [← append_assoc, mem_append, mem_singleton, ← h.placed.paths path']
    by_cases heq : path' = path
    · rw [heq, hself]
      exact ⟨fun _ => .inr rfl, fun _ => ⟨s.log, rfl⟩⟩
    · rw [hget path' heq]
      exact ⟨.inl, fun h => h.resolve_right heq⟩
  · rw [← append_assoc]
    refine nodup_append.2 ⟨h.placed.nodup, nodup_singleton _, ?_⟩
    rintro x hx y hy rfl
    exact hnot (mem_singleton.1 hy ▸ hx)
  · rintro path' ⟨⟩
  · rw [h.knows.queue, append_assoc]

end Up

/-! ### The steps of the compactor -/

theorem rowids_put {dir : Dir α} (h : nameOf file ∉ dir.files.rowids) :
    (dir.put file).files.rowids = nameOf file :: dir.files.rowids :=
  if_neg h

theorem Sound.put_snapshot (h : Sound s)
    (hfile : Holds s.history (commitsOf s.history) file.toSnapshot) (process : Option Process) :
    Sound { s with snapshots := s.snapshots.put file, process } :=
  { h with
    holds := by
      intro name file' hget
      rw [Dir.get_put] at hget
      split at hget
      · cases hget
        exact hfile
      · exact h.holds name file' hget }

namespace Up

variable (h : Up s p snaps unbuilt m)
include h

theorem compact (hstep : s.compact p = some s') : Inv s' := by
  unfold Sys.compact at hstep
  split at hstep
  swap
  · cases hstep
  rename_i path rest hidle hqueue
  have hqueue' := h.knows.queue
  rw [hqueue, hidle] at hqueue'
  have hunbuilt : unbuilt = path :: rest := hqueue'.symm
  subst hunbuilt
  obtain ⟨log, hlog, hstart, hchain⟩ := h.placed.logChain
  obtain ⟨file, hfile, hholds, hfileStart, hfileEnd⟩ :=
    compactionFile_spec h.sound.committed (h.sound.logs path log hlog)
  rw [hlog] at hstep
  dsimp only at hstep
  rw [hfile] at hstep
  cases hstep
  have hle : file.startFrameNo ≤ file.endFrameNo := hholds.le
  -- nothing in the directory reaches as far
  have hnew : nameOf file ∉ s.snapshots.files.rowids := by
    intro hmem
    have hlt : file.endFrameNo < m := by
      rcases mem_append.1 (h.placed.dir.mem_iff.1 hmem) with hmem | hmem
      · exact (h.placed.chain.mem hmem).2.2
      · exact h.placed.leftover_lt _ hmem
    omega
  have hbuilt : p.compactor.built = [] := by rw [hidle]; rfl
  obtain ⟨old, hold, hworking⟩ := h.knows.lists
  refine inv rfl (show Up _ _ (snaps ++ [nameOf file]) rest (m + log.frames.length) from
    ⟨h.sound.put_snapshot hholds _, ⟨?_, hchain, ?_, ?_, ?_, ?_⟩,
      { h.knows with queue := ?_, compactor := nofun, lists := ⟨old, ?_, hworking⟩ }⟩)
  · refine Chain.append_iff.2 ⟨m, h.placed.chain, ?_, ?_, ?_⟩
    · exact hfileStart.trans hstart
    · show m ≤ file.endFrameNo
      omega
    · show file.endFrameNo + 1 = m + log.frames.length
      omega
  · rw [rowids_put hnew, append_assoc, singleton_append]
    exact (h.placed.dir.cons _).trans perm_middle.symm
  · intro name hname
    have := h.placed.leftover_lt name hname
    omega
  · intro path'
    rw [h.placed.paths path', hbuilt]
    exact Iff.rfl
  · have hnodup := h.placed.nodup
    rw [hbuilt] at hnodup
    exact hnodup
  · rw [hqueue]
    rfl
  · show old ++ p.inChannel ++ [nameOf file] = _
    rw [← hold, hidle]
    simp [Compactor.waiting]

theorem register (hstep : s.register p = some s') : Inv s' := by
  unfold Sys.register at hstep
  split at hstep
  · next hmerger => exact absurd hmerger h.knows.merger
  · next path name count dbPageCount hcompactor hchannel _ =>
    cases hstep
    have hplaced := h.placed
    have hqueue := h.knows.queue
    obtain ⟨old, hold, hworking⟩ := h.knows.lists
    rw [hcompactor] at hplaced hqueue hold
    refine inv rfl (show Up _ _ snaps unbuilt m from ⟨{ h.sound with }, { hplaced with },
      { h.knows with queue := hqueue, compactor := nofun, lists := ⟨old, ?_, hworking⟩ }⟩)
    rw [← hold]
    simp [Process.inChannel, Compactor.waiting, hchannel]
  · cases hstep

theorem remove (hstep : s.remove p = some s') : Inv s' := by
  unfold Sys.remove at hstep
  split at hstep
  swap
  · cases hstep
  rename_i path hcompactor
  cases hstep
  have hplaced := h.placed
  have hqueue := h.knows.queue
  obtain ⟨old, hold, hworking⟩ := h.knows.lists
  rw [hcompactor] at hplaced hqueue hold
  have hnodup : path ∉ unbuilt ∧ unbuilt.Nodup := nodup_cons.1 hplaced.nodup
  have hlogs : ∀ path' log, (s.toCompact.erase path).get path' = some (.log log) ↔
      path' ≠ path ∧ s.toCompact.get path' = some (.log log) := by
    intro path' log
    rw [RowTable.get_erase]
    by_cases heq : path' = path
    · rw [if_pos heq]
      exact ⟨nofun, fun hne => absurd heq hne.1⟩
    · rw [if_neg heq, and_iff_right heq]
  refine inv rfl (show Up _ _ snaps unbuilt m from ⟨{ h.sound with logs := ?_ },
    { hplaced with logChain := ?_, paths := ?_, nodup := hnodup.2 },
    { h.knows with
      moving := ?_, queue := ?_, compactor := nofun, lists := ⟨old, hold, hworking⟩ }⟩)
  · intro path' log hlog
    exact h.sound.logs path' log ((hlogs path' log).1 hlog).2
  · exact hplaced.logChain.of_logs fun path' hpath' log hlog =>
      (hlogs path' log).2 ⟨fun heq => hnodup.1 (heq ▸ hpath'), hlog⟩
  · intro path'
    have hpaths := hplaced.paths path'
    rw [Compactor.built, singleton_append, mem_cons] at hpaths
    constructor
    · rintro ⟨log, hlog⟩
      obtain ⟨hne, hlog⟩ := (hlogs path' log).1 hlog
      exact (hpaths.1 ⟨log, hlog⟩).resolve_left hne
    · intro hmem
      obtain ⟨log, hlog⟩ := hpaths.2 (.inr hmem)
      exact ⟨log, (hlogs path' log).2 ⟨fun heq => hnodup.1 (heq ▸ hmem), hlog⟩⟩
  · intro path' hmoving
    obtain ⟨hframes, hno⟩ := h.knows.moving path' hmoving
    exact ⟨hframes, fun log hlog => hno log ((hlogs path' log).1 hlog).2⟩
  · rw [hqueue]
    rfl

end Up

/-! ### The steps of the merger -/

theorem leftover_running (snapshots snapshots' : List (Name × ℕ)) (job : Option Job) :
    (Merger.running snapshots job).leftover = (Merger.running snapshots' job).leftover := by
  rcases job with _ | (parts | ⟨merged, parts⟩) <;> rfl

theorem infoList_names (dir : Dir α) : (Sys.infoList dir).map Prod.fst =
    dir.files.rowids.insertionSort fun a b => a.startFrameNo ≤ b.startFrameNo := by
  rw [Sys.infoList, List.map_map]
  exact List.map_id _

namespace Up

variable (h : Up s p snaps unbuilt m)
include h

theorem running {snapshots : List (Name × ℕ)} {job : Option Job}
    (hmerger : p.merger = .running snapshots job) :
    (Merger.running snapshots job).working ++ p.inChannel ++ p.compactor.waiting = snaps ∧
      Placed s snaps unbuilt m p.compactor.built (Merger.running snapshots job).leftover := by
  obtain ⟨old, hold, hworking⟩ := h.knows.lists
  rw [← hmerger, ← hworking (by rw [hmerger]; nofun)]
  exact ⟨hold, h.placed⟩

theorem init (hchannel : p.inChannel = [])
    (hwaiting : p.compactor.waiting = []) (hstep : s.init p = some s') : Inv s' := by
  unfold Sys.init at hstep
  split at hstep
  swap
  · cases hstep
  rename_i hmerger
  cases hstep
  have hplaced := h.placed
  rw [hmerger] at hplaced
  have hnames : (Sys.infoList s.snapshots).map Prod.fst = snaps := by
    rw [infoList_names]
    refine insertionSort_eq ?_ hplaced.chain.sorted
    simpa [Merger.leftover] using hplaced.dir
  refine inv rfl (show Up _ _ snaps unbuilt m from ⟨{ h.sound with }, { hplaced with },
    { h.knows with merger := nofun, lists := ⟨snaps, ?_, fun _ => hnames.symm⟩, two := nofun }⟩)
  show snaps ++ p.inChannel ++ p.compactor.waiting = snaps
  rw [hchannel, hwaiting, append_nil, append_nil]

theorem receive
    (htwo : ∀ parts ∈ p.nextMerge, 2 ≤ parts.length) (hstep : s.receive p = some s') : Inv s' := by
  unfold Sys.receive at hstep
  split at hstep
  swap
  · cases hstep
  rename_i snapshots job name count dbPageCount hmerger hchannel
  cases hstep
  obtain ⟨hlists, hplaced⟩ := h.running hmerger
  have hin : p.inChannel = [name] := by
    rw [Process.inChannel, hchannel]
    rfl
  rw [hin] at hlists
  split
  · next hstart =>
    -- all of the list is given to a new task
    obtain ⟨hjob, hshould⟩ := Bool.and_eq_true_iff.1 hstart
    obtain rfl := isNone_iff_eq_none.1 hjob
    have hnext : p.nextMerge = some (snapshots ++ [(name, count)]) := by
      rw [Process.nextMerge, hmerger, hchannel]
      exact if_pos hshould
    refine inv rfl (show Up _ _ snaps unbuilt m from ⟨{ h.sound with }, { hplaced with },
      { h.knows with merger := nofun, lists := ⟨_, ?_, fun _ => rfl⟩, two := ?_ }⟩)
    · rw [← hlists]
      simp [Merger.working, Process.inChannel]
    · rintro _ _ ⟨⟩
      exact htwo _ hnext
  · rw [leftover_running snapshots (snapshots ++ [(name, count)])] at hplaced
    refine inv rfl (show Up _ _ snaps unbuilt m from ⟨{ h.sound with }, { hplaced with },
      { h.knows with merger := nofun, lists := ⟨_, ?_, fun _ => rfl⟩, two := ?_ }⟩)
    · rw [← hlists]
      rcases job with _ | (parts | ⟨merged, parts⟩) <;> simp [Merger.working, Process.inChannel]
    · rintro _ parts ⟨⟩
      exact h.knows.two snapshots parts hmerger

theorem merge (hstep : s.merge p = some s') : Inv s' := by
  unfold Sys.merge at hstep
  split at hstep
  swap
  · cases hstep
  rename_i snapshots parts hmerger
  obtain ⟨hlists, hplaced⟩ := h.running hmerger
  have hdir : s.snapshots.files.rowids.Perm snaps := by
    simpa [Merger.leftover] using hplaced.dir
  -- the parts come first
  have hsnaps : snaps = parts.map Prod.fst ++
      (snapshots.map Prod.fst ++ p.inChannel ++ p.compactor.waiting) := by
    rw [← hlists]
    simp [Merger.working]
  have htwo : 2 ≤ (parts.map Prod.fst).length := by
    rw [length_map]
    exact h.knows.two snapshots parts hmerger
  have hne : parts.map Prod.fst ≠ [] := by
    intro hnil
    rw [hnil] at htwo
    cases htwo
  have hchain := hplaced.chain
  rw [hsnaps] at hchain
  obtain ⟨c, hparts, hrest⟩ := Chain.append_iff.1 hchain
  obtain ⟨file, hfile⟩ := build_isSome h.sound.committed h.sound.holds
    (fun name hname => hdir.mem_iff.2 (by rw [hsnaps]; exact mem_append_left _ hname))
    hne hparts
  obtain ⟨hholds, hname, -⟩ := build_spec h.sound.committed h.sound.holds hparts.noGap hfile
  rw [hfile] at hstep
  cases hstep
  have hhull := hparts.hull hne
  rw [← hname] at hhull
  have hc : 0 < c := by
    have hend : (nameOf file).endFrameNo + 1 = c := hhull.2.2
    omega
  have hnew : nameOf file ∉ s.snapshots.files.rowids := by
    intro hmem
    have hmem := hdir.mem_iff.1 hmem
    rw [hsnaps] at hmem
    rcases mem_append.1 hmem with hmem | hmem
    · rw [hname] at hmem
      exact hparts.hull_notMem htwo hmem
    · have hstart : (nameOf file).startFrameNo = 0 := hhull.1
      have := (hrest.mem hmem).1
      omega
  refine inv rfl (show Up _ _
      (nameOf file :: (snapshots.map Prod.fst ++ p.inChannel ++ p.compactor.waiting)) unbuilt m from
    ⟨h.sound.put_snapshot hholds _, { hplaced with chain := ?_, dir := ?_, leftover_lt := ?_ },
      { h.knows with
        merger := nofun, lists := ⟨nameOf file :: snapshots.map Prod.fst, ?_, fun _ => rfl⟩
        two := nofun }⟩)
  · exact Chain.append_iff.2 ⟨c, hhull, hrest⟩
  · rw [rowids_put hnew]
    refine List.Perm.cons _ (hdir.trans ?_)
    rw [hsnaps]
    exact perm_append_comm
  · intro name hmem
    have := (hparts.mem hmem).2.2
    have := hrest.le
    omega
  · simp [Process.inChannel]

theorem removePart (hstep : s.removePart p = some s') : Inv s' := by
  unfold Sys.removePart at hstep
  split at hstep
  swap
  · cases hstep
  rename_i snapshots merged part parts hmerger
  obtain ⟨hlists, hplaced⟩ := h.running hmerger
  have hdir : s.snapshots.files.rowids.Perm (snaps ++ part :: parts) := hplaced.dir
  have hmem : part ∈ s.snapshots.files.rowids := hdir.mem_iff.2 (by simp)
  have hnot : part ∉ snaps := by
    intro hpart
    have hnodup := hdir.nodup_iff.1 s.snapshots.files.nodup
    exact (nodup_append.1 hnodup).2.2 part hpart part (mem_cons_self ..) rfl
  have hremove : s.snapshots.remove part = some (s.snapshots.erase part) :=
    if_pos ((s.snapshots.files.mem_iff part).1 hmem)
  rw [hremove] at hstep
  cases hstep
  refine inv rfl (show Up _ _ snaps unbuilt m from
    ⟨{ h.sound with holds := ?_ }, { hplaced with dir := ?_, leftover_lt := ?_ },
    { h.knows with merger := nofun, lists := ⟨_, hlists, fun _ => rfl⟩, two := nofun }⟩)
  · intro name file hget
    rw [Dir.get_erase] at hget
    split_ifs at hget
    exact h.sound.holds name file hget
  · have herase := hdir.erase part
    rw [erase_append_right _ hnot, erase_cons_head] at herase
    exact herase
  · intro name hname
    exact hplaced.leftover_lt name (mem_cons_of_mem _ hname)

theorem finish (hstep : s.finish p = some s') : Inv s' := by
  unfold Sys.finish at hstep
  split at hstep
  · next snapshots merged hmerger =>
    cases hstep
    obtain ⟨hlists, hplaced⟩ := h.running hmerger
    exact inv rfl (show Up _ _ snaps unbuilt m from ⟨{ h.sound with }, { hplaced with },
      { h.knows with merger := nofun, lists := ⟨_, hlists, fun _ => rfl⟩, two := nofun }⟩)
  · cases hstep

end Up

/-! ### Restarts -/

theorem isLog_iff :
    Sys.isLog toCompact path = true ↔ ∃ log, toCompact.get path = some (.log log) := by
  unfold Sys.isLog
  split
  · next log hlog => exact ⟨fun _ => ⟨log, hlog⟩, fun _ => rfl⟩
  · next hnot => exact ⟨nofun, fun ⟨log, hlog⟩ => absurd hlog (hnot log)⟩

theorem get_dropHeaders_log {log : LogFile α} :
    (Sys.dropHeaders toCompact).get path = some (.log log) ↔
      toCompact.get path = some (.log log) := by
  rw [Sys.dropHeaders, RowTable.get_foldl_erase]
  split
  · next hmem =>
    refine ⟨nofun, ?_⟩
    intro hlog
    have hnot := (mem_filter.1 hmem).2
    simp [isLog_iff.2 ⟨log, hlog⟩] at hnot
  · exact Iff.rfl

theorem Placed.restart
    (h : Placed s snaps unbuilt m [] []) (hsound : Sound s) (hstep : s.restart = some s') : Inv s' := by
  unfold Sys.restart at hstep
  split_ifs at hstep
  cases hstep
  have hperm : (s.toCompact.rowids.filter (Sys.isLog s.toCompact)).Perm unbuilt := by
    refine (perm_ext_iff_of_nodup (s.toCompact.nodup.filter _) h.nodup).2 ?_
    intro path
    rw [mem_filter, isLog_iff, h.paths path]
    refine ⟨And.right, fun hmem => ⟨?_, hmem⟩⟩
    obtain ⟨log, hlog⟩ := (h.paths path).2 hmem
    exact (s.toCompact.mem_iff path).2 (by rw [hlog]; rfl)
  have hpending : Sys.pending s.toCompact = unbuilt :=
    insertionSort_eq hperm (h.logChain.sorted fun path log hlog => (hsound.logs path log hlog).ne)
  refine Up.inv rfl (show Up _ _ snaps unbuilt m from
    ⟨{ hsound with logs := ?_ }, { h with logChain := ?_, paths := ?_ },
    { moving := nofun, queue := hpending, compactor := nofun, merger := nofun
      lists := ⟨snaps, ?_, fun hne => absurd rfl hne⟩, two := nofun }⟩)
  · intro path log hlog
    exact hsound.logs path log (get_dropHeaders_log.1 hlog)
  · exact h.logChain.of_logs fun path _ log => get_dropHeaders_log.2
  · intro path
    refine Iff.trans ?_ (h.paths path)
    exact exists_congr fun log => get_dropHeaders_log
  · simp [Process.inChannel, Compactor.waiting]

/-! ### Whole runs -/

theorem Inv.new : Inv (Sys.new : Sys α) := by
  refine ⟨⟨⟨nofun, mem_singleton.2 rfl⟩, ⟨Nat.le_refl _, rfl⟩, nofun, nofun⟩, [], [], 0,
    ⟨rfl, rfl, List.Perm.refl _, nofun, ?_, nodup_nil⟩⟩
  intro path
  exact ⟨nofun, nofun⟩

theorem Up.step
    (h : Up s p snaps unbuilt m) (hp : s.process = some p) {a : Action α} (hcareful : Careful s a)
    (hstep : step s a = some s') : Inv s' := by
  unfold LogCompactor.step at hstep
  rw [hp] at hstep
  cases a with
  | commit pages last sizeAfter =>
    dsimp only at hstep
    split at hstep
    · next hcan =>
      cases hstep
      exact (h.commit hcan.1 pages last hcan.2).inv hp
    · cases hstep
  | create path => exact h.create hstep
  | writeHeader => exact h.writeHeader hp hstep
  | swap => exact h.swap hstep
  | compact => exact h.compact hstep
  | register => exact h.register hstep
  | remove => exact h.remove hstep
  | init =>
    obtain ⟨hchannel, hwaiting⟩ := hcareful p hp
    exact h.init hchannel hwaiting hstep
  | receive => exact h.receive (hcareful p hp) hstep
  | finish => exact h.finish hstep
  | merge => exact h.merge hstep
  | removePart => exact h.removePart hstep
  | crash =>
    cases hstep
    obtain ⟨hbuilt, hleftover⟩ := hcareful p hp
    have hplaced := h.placed
    rw [hbuilt, hleftover] at hplaced
    exact ⟨{ h.sound with }, snaps, unbuilt, m, { hplaced with }⟩
  | restart => cases hstep

theorem Inv.step (h : Inv s) {a : Action α} (hcareful : Careful s a)
    (hstep : step s a = some s') : Inv s' := by
  unfold Inv at h
  split at h
  · next hdown =>
    obtain ⟨hsound, snaps, unbuilt, m, hplaced⟩ := h
    unfold LogCompactor.step at hstep
    rw [hdown] at hstep
    cases a with
    | restart => exact hplaced.restart hsound hstep
    | _ => cases hstep
  · next p hp =>
    obtain ⟨snaps, unbuilt, m, hup⟩ := h
    exact hup.step hp hcareful hstep

/-- **Compaction through crashes.**  In every run whose steps are all careful, every committed frame is
covered, the ranges of the snapshots that the merger works with are disjoint and increasing, and
neither the merger nor the compactor has failed. -/
theorem covered_of_careful {s : Sys α} {actions : List (Action α)}
    (halong : Run.Along step Careful Sys.new actions)
    (hexec : Run.exec step Sys.new actions = some s) :
    (∀ n < s.history.length, Covered s n) ∧
      ∀ p, s.process = some p → Increasing p.merger.working ∧ p.merger ≠ .stopped ∧
        p.compactor ≠ .stopped := by
  have hinv : Inv s := Run.exec_invariant (fun s a s' h hok hstep => h.step hok hstep) Inv.new
    halong hexec
  refine ⟨fun n hn => hinv.covered hn, ?_⟩
  intro p hp
  unfold Inv at hinv
  rw [hp] at hinv
  obtain ⟨snaps, unbuilt, m, hup⟩ := hinv
  exact ⟨hup.increasing, hup.knows.merger, hup.knows.compactor⟩

section Example

instance (s : Sys α) : (a : Action α) → Decidable (Careful s a)
  | .crash => inferInstanceAs (Decidable (∀ p ∈ s.process, _))
  | .init => inferInstanceAs (Decidable (∀ p ∈ s.process, _))
  | .receive => inferInstanceAs (Decidable (∀ p ∈ s.process, ∀ parts ∈ p.nextMerge, _))
  | .commit _ _ _ => isTrue trivial
  | .create _ => isTrue trivial
  | .writeHeader => isTrue trivial
  | .swap => isTrue trivial
  | .compact => isTrue trivial
  | .register => isTrue trivial
  | .remove => isTrue trivial
  | .finish => isTrue trivial
  | .merge => isTrue trivial
  | .removePart => isTrue trivial
  | .restart => isTrue trivial

/-- A transaction of two pages, and a log of it is compacted and registered. -/
def compacting (path : ℕ) : List (Action ℕ) :=
  [.commit [(1, path)] (2, path) 2, .create path, .writeHeader, .swap, .compact, .register, .remove]

/-- The process is killed while a log waits, and again while a snapshot is built of two. -/
def killed : List (Action ℕ) :=
  [.restart, .init] ++ compacting 7 ++ [.receive, .commit [] (1, 5) 2, .create 8, .writeHeader,
    .swap, .crash, .restart, .init, .compact, .register, .remove, .receive] ++
    compacting 9 ++ [.receive, .crash, .restart, .init] ++ compacting 4 ++
    [.receive, .merge, .removePart, .removePart, .removePart, .removePart, .finish]

/-- What the merger works with and the snapshots in the directory. -/
def lists (s : Sys α) : Option (List Name) × List Name :=
  (s.process.map fun p => p.merger.working, s.snapshots.files.rowids)

theorem covered_of_careful_killed :
    ∃ s, Run.exec step Sys.new killed = some s ∧ lists s = (some [⟨0, 6⟩], [⟨0, 6⟩]) ∧
      ∀ n < s.history.length, Covered s n := by
  obtain ⟨s, hexec, hlists⟩ : ∃ s, Run.exec step Sys.new killed = some s ∧
      lists s = (some [⟨0, 6⟩], [⟨0, 6⟩]) := by decide +kernel
  exact ⟨s, hexec, hlists, (covered_of_careful (by decide +kernel) hexec).1⟩

/-- The process is killed after a merge has put its snapshot in its place and removed one part. -/
def killedWhileRemoving : List (Action ℕ) :=
  [.restart, .init] ++ compacting 7 ++ [.receive] ++ compacting 8 ++
    [.receive, .merge, .removePart, .crash, .restart, .init]

/-- A database of four pages is shrunk to two before its log is compacted. -/
def shrunk : List (Action ℕ) :=
  [.restart, .init, .commit [(1, 10), (2, 11), (3, 12)] (4, 13) 4, .commit [] (1, 14) 2, .create 7,
    .writeHeader, .swap, .compact, .register, .remove, .receive, .merge, .removePart]

theorem not_covered_of_empty (hlog : n < s.log.startFrameNo)
    (hqueue : s.toCompact.rowids = []) (hdir : s.snapshots.files.rowids = []) : ¬ Covered s n := by
  rintro (⟨frame, hframe⟩ | ⟨path, log, frame, hget, -⟩ | ⟨name, hname, -⟩)
  · simp [LogFile.frame, if_pos hlog] at hframe
  · simp [RowTable.get_of_rowids_nil hqueue] at hget
  · simp [hdir] at hname

/-- The merger has ended. -/
def Merger.isStopped : Merger → Bool
  | .stopped => true
  | _ => false

/-- **Otherwise the list overlaps and the next merge fails, or a range is gone.**  After a crash
between the snapshot and the removal of its last part, the merger has both in its list, and ends at
the next merge; and the snapshot of a database that has shrunk is merged alone and then removed. -/
theorem careless_compaction :
    (∃ s p, Run.exec step Sys.new killedWhileRemoving = some s ∧ s.process = some p ∧
        ¬ Increasing p.merger.working) ∧
      (∃ s p, Run.exec step Sys.new
          (killedWhileRemoving ++ compacting 9 ++ [.receive, .merge]) = some s ∧
        s.process = some p ∧ p.merger = .stopped) ∧
      ∃ s, Run.exec step Sys.new shrunk = some s ∧ 0 < s.history.length ∧ ¬ Covered s 0 := by
  refine ⟨?_, ?_, ?_⟩
  · obtain ⟨s, hexec, hlists⟩ : ∃ s, Run.exec step Sys.new killedWhileRemoving = some s ∧
        (lists s).1 = some [⟨0, 3⟩, ⟨2, 3⟩] := by decide +kernel
    obtain ⟨p, hp, hworking⟩ := Option.map_eq_some_iff.1 hlists
    refine ⟨s, p, hexec, hp, ?_⟩
    rw [hworking]
    intro h
    have hlt := (List.pairwise_cons.1 h).1 ⟨2, 3⟩ (List.mem_cons_self ..)
    exact absurd hlt (by decide)
  · obtain ⟨s, hexec, p, hp, hmerger⟩ : ∃ s, Run.exec step Sys.new
        (killedWhileRemoving ++ compacting 9 ++ [.receive, .merge]) = some s ∧
        ∃ p, s.process = some p ∧ p.merger.isStopped = true := by decide +kernel
    refine ⟨s, p, hexec, hp, ?_⟩
    cases hcase : p.merger with
    | stopped => rfl
    | starting | running =>
      rw [hcase] at hmerger
      cases hmerger
  · obtain ⟨s, hexec, hlength, hstart, hqueue, hdir⟩ : ∃ s, Run.exec step Sys.new shrunk = some s ∧
        s.history.length = 5 ∧ s.log.startFrameNo = 5 ∧ s.toCompact.rowids = [] ∧
        s.snapshots.files.rowids = [] := by decide +kernel
    exact ⟨s, hexec, by omega, not_covered_of_empty (by omega) hqueue hdir⟩

end Example

end SqlAnywhere.Server.LogCompactor
