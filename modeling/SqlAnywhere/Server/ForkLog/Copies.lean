import SqlAnywhere.Server.ForkLog

/-!
# A fork is a copy of its source after some transaction

* `SourceInv` — the log has the end of the history, and each snapshot a part of it that ends with a
  transaction
* `ForkInv` — the file of a fork is the database after the frames before its next one
* `Sys.copied` — a fork that is done is a copy of its source after a transaction
* `Sys.last_frame_missing` — a fork without the last frame
-/

namespace SqlAnywhere.Server.ForkLog

open List Overwrite
open ReplicationLog

variable {α : Type*} {history : List (Frame α)} {n : ℕ} {a b : ℕ} {s : Source α}

/-! ### Parts of the history -/

/-- The frames from number `a` up to number `b`. -/
def segment (history : List (Frame α)) (a b : ℕ) : List (Frame α) := (history.take b).drop a

theorem segment_append_of_le {b : ℕ} (h : b ≤ history.length)
    (more : List (Frame α)) : segment (history ++ more) a b = segment history a b := by
  rw [segment, segment, take_append_of_le_length h]

theorem take_append_segment {b c : ℕ} (hbc : b ≤ c) :
    history.take b ++ segment history b c = history.take c := by
  have htake : history.take b = (history.take c).take b := by
    rw [take_take, Nat.min_eq_left hbc]
  rw [segment, htake, take_append_drop]

theorem segment_append {a b c : ℕ} (hab : a ≤ b) (hbc : b ≤ c) (hb : b ≤ history.length) :
    segment history a b ++ segment history b c = segment history a c := by
  have hlen : a ≤ (history.take b).length := by
    rw [length_take]
    omega
  conv_lhs => rw [segment]
  rw [← drop_append_of_le_length hlen, take_append_segment hbc, segment]

theorem segment_eq_nil (h : b ≤ a) :
    segment history a b = [] := by
  rw [segment, drop_eq_nil_iff, length_take]
  omega

@[simp] theorem segment_length :
    segment history a history.length = history.drop a := by
  rw [segment, take_length]

/-- The frames of a history are numbered in their order. -/
def Numbered (history : List (Frame α)) : Prop :=
  ∀ (i : ℕ) (frame : Frame α), history[i]? = some frame → frame.frameNo = i

theorem Numbered.getElem?_segment (h : Numbered history) {i : ℕ} {frame : Frame α}
    (hi : (segment history a b)[i]? = some frame) : frame.frameNo = a + i ∧ a + i < b := by
  rw [segment, getElem?_drop, getElem?_take] at hi
  split_ifs at hi with hlt
  exact ⟨h (a + i) frame hi, hlt⟩

theorem Numbered.of_mem_segment (h : Numbered history)
    {frame : Frame α} (hmem : frame ∈ segment history a b) :
    a ≤ frame.frameNo ∧ frame.frameNo < b := by
  obtain ⟨i, hi⟩ := mem_iff_getElem?.1 hmem
  have := h.getElem?_segment hi
  omega

/-! ### The source -/

/-- A snapshot has the newest frames of a part of the history that ends with a transaction. -/
structure Holds (history : List (Frame α)) (commits : List ℕ) (s : Snapshot α) : Prop where
  le : s.startFrameNo ≤ s.endFrameNo
  whole : s.endFrameNo + 1 ∈ commits
  frames : s.frames = compacted (segment history s.startFrameNo (s.endFrameNo + 1))

/-- A log that was swapped out has a part of the history that ends with a transaction. -/
structure SwappedOut (history : List (Frame α)) (commits : List ℕ) (log : LogFile α) : Prop where
  ne : log.frames ≠ []
  whole : log.startFrameNo + log.frames.length ∈ commits
  frames : log.frames =
    segment history log.startFrameNo (log.startFrameNo + log.frames.length)

structure SourceInv (s : Source α) : Prop where
  numbered : Numbered s.history
  start_le : s.log.startFrameNo ≤ s.history.length
  frames : s.log.frames = s.history.drop s.log.startFrameNo
  uncommitted : ∀ (i : ℕ) (frame : Frame α), s.log.uncommitted[i]? = some frame →
    frame.frameNo = s.history.length + i
  toCompact : ∀ log ∈ s.toCompact, SwappedOut s.history s.commits log
  snapshots : ∀ snapshot ∈ s.snapshots, Holds s.history s.commits snapshot
  commits_le : ∀ n ∈ s.commits, n ≤ s.history.length
  last : s.history.length ∈ s.commits
  zero : 0 ∈ s.commits

/-- What was committed stays. -/
structure Extends (s s' : Source α) : Prop where
  history : ∃ more, s'.history = s.history ++ more
  commits : ∀ n ∈ s.commits, n ∈ s'.commits

namespace SourceInv

theorem logOf (h : SourceInv s) : LogOf s.history s.log := ⟨h.start_le, h.frames⟩

theorem new : SourceInv (Source.new : Source α) where
  numbered := by
    intro i frame hi
    cases hi
  start_le := Nat.le_refl _
  frames := rfl
  uncommitted := by
    intro i frame hi
    cases hi
  toCompact := nofun
  snapshots := nofun
  commits_le := by
    intro n hn
    obtain rfl := mem_singleton.1 hn
    exact Nat.le_refl _
  last := mem_singleton.2 rfl
  zero := mem_singleton.2 rfl

variable (h : SourceInv s)
include h

theorem push (pageNo sizeAfter : ℕ) (page : α) :
    SourceInv (s.step (.push pageNo sizeAfter page)) :=
  { h with
    uncommitted := by
      intro i frame hi
      have hi : (s.log.uncommitted ++ [⟨s.log.nextFrameNo, pageNo, sizeAfter, page⟩])[i]? =
          some frame := hi
      rw [getElem?_append] at hi
      split at hi
      · exact h.uncommitted i frame hi
      rename_i hlt
      rw [getElem?_singleton] at hi
      split at hi
      · next hzero =>
        cases hi
        have hlen := h.logOf.length
        show s.log.startFrameNo + s.log.frames.length + s.log.uncommitted.length =
          s.history.length + i
        omega
      · cases hi }

theorem rollback : SourceInv (s.step .rollback) :=
  { h with
    uncommitted := by
      intro i frame hi
      cases hi }

theorem commit : SourceInv s.commit where
  numbered := by
    intro i frame hi
    have hi : (s.history ++ s.log.uncommitted)[i]? = some frame := hi
    rw [getElem?_append] at hi
    split at hi
    · exact h.numbered i frame hi
    · next hlt =>
      rw [h.uncommitted _ frame hi]
      omega
  start_le := (h.logOf.append _).start_le
  frames := (h.logOf.append _).frames
  uncommitted := by
    intro i frame hi
    cases hi
  toCompact := by
    intro log hlog
    have hout := h.toCompact log hlog
    refine ⟨hout.ne, mem_append_left _ hout.whole, ?_⟩
    show log.frames = segment (s.history ++ s.log.uncommitted) _ _
    rw [segment_append_of_le (h.commits_le _ hout.whole)]
    exact hout.frames
  snapshots := by
    intro snapshot hsnap
    have hold := h.snapshots snapshot hsnap
    refine ⟨hold.le, mem_append_left _ hold.whole, ?_⟩
    show snapshot.frames = compacted (segment (s.history ++ s.log.uncommitted) _ _)
    rw [segment_append_of_le (h.commits_le _ hold.whole)]
    exact hold.frames
  commits_le := by
    intro n hn
    rcases mem_append.1 hn with hn | hn
    · have := h.commits_le n hn
      show n ≤ (s.history ++ s.log.uncommitted).length
      rw [length_append]
      omega
    · obtain rfl := mem_singleton.1 hn
      exact Nat.le_refl _
  last := mem_append_right _ (mem_singleton.2 rfl)
  zero := mem_append_left _ h.zero

theorem compact : SourceInv s.compact := by
  unfold Source.compact
  split
  swap
  · exact h
  rename_i hcan
  obtain ⟨-, hne⟩ := Bool.and_eq_true_iff.1 hcan
  have hlen := h.logOf.length
  exact
    { h with
      start_le := h.logOf.swapped.start_le
      frames := h.logOf.swapped.frames
      uncommitted := by
        intro i frame hi
        cases hi
      toCompact := by
        intro log hlog
        rcases mem_append.1 hlog with hlog | hlog
        · exact h.toCompact log hlog
        obtain rfl := mem_singleton.1 hlog
        refine ⟨?_, ?_, ?_⟩
        · intro hnil
          simp [hnil] at hne
        · rw [hlen]
          exact h.last
        · rw [hlen, segment_length]
          exact h.frames }

end SourceInv

theorem segment_ends (h : Numbered history) (hab : a < b) (hb : b ≤ history.length) :
    ∃ first last, (segment history a b).head? = some first ∧ first.frameNo = a ∧
      (segment history a b).getLast? = some last ∧ last.frameNo + 1 = b := by
  obtain ⟨first, hfirst⟩ : ∃ first, history[a]? = some first :=
    ⟨_, getElem?_eq_getElem (by omega)⟩
  obtain ⟨last, hlast⟩ : ∃ last, history[b - 1]? = some last :=
    ⟨_, getElem?_eq_getElem (by omega)⟩
  refine ⟨first, last, ?_, h a first hfirst, ?_, ?_⟩
  · rw [segment, head?_drop, getElem?_take, if_pos hab, hfirst]
  · rw [segment, getLast?_drop, length_take, Nat.min_eq_left hb, if_neg (by omega),
      getLast?_eq_getElem?, length_take, Nat.min_eq_left hb, getElem?_take,
      if_pos (by omega), hlast]
  · rw [h (b - 1) last hlast]
    omega

theorem Holds.of_compaction (h : SourceInv s) {log : LogFile α}
    (hlog : SwappedOut s.history s.commits log) {made : Snapshot α}
    (hmade : performCompaction log = some made) : Holds s.history s.commits made := by
  have hpos : 0 < log.frames.length := length_pos_iff.2 hlog.ne
  have hle := h.commits_le _ hlog.whole
  obtain ⟨first, last, hfirst, hfirstNo, hlast, hlastNo⟩ :=
    segment_ends h.numbered (show log.startFrameNo < log.startFrameNo + log.frames.length by omega)
      hle
  rw [← hlog.frames] at hfirst hlast
  obtain rfl := performCompaction_eq hmade hfirst hlast
  refine ⟨?_, ?_, ?_⟩
  · show first.frameNo ≤ last.frameNo
    omega
  · rw [hlastNo]
    exact hlog.whole
  · rw [hfirstNo, hlastNo, ← hlog.frames]

theorem newest_parts (h : SourceInv s) {first : Snapshot α}
    {rest : List (Snapshot α)} (hall : ∀ p ∈ first :: rest, Holds s.history s.commits p)
    (hcont : contiguous (first :: rest) = true) :
    newest Frame.pageNo [] ((first :: rest).reverse.flatMap Snapshot.frames) =
        compacted (segment s.history first.startFrameNo
          (((first :: rest).getLast (by simp)).endFrameNo + 1)) ∧
      first.startFrameNo ≤ ((first :: rest).getLast (by simp)).endFrameNo := by
  have hfirst := hall first (mem_cons_self ..)
  induction rest generalizing first with
  | nil =>
    refine ⟨?_, hfirst.le⟩
    have hone := newest_compacted (segment s.history first.startFrameNo (first.endFrameNo + 1))
    rw [← hfirst.frames] at hone
    simpa [hfirst.frames] using hone
  | cons second rest ih =>
    obtain ⟨hnext, hcont⟩ := Bool.and_eq_true_iff.1 hcont
    have hnext := eq_of_beq hnext
    obtain ⟨hrest, hle⟩ := ih (fun p hp => hall p (mem_cons_of_mem _ hp)) hcont
      (hall second (mem_cons_of_mem _ (mem_cons_self ..)))
    have hlast : (first :: second :: rest).getLast (by simp) =
        (second :: rest).getLast (by simp) := getLast_cons (by simp)
    have hfle := hfirst.le
    refine ⟨?_, by rw [hlast]; omega⟩
    rw [reverse_cons, flatMap_append, flatMap_singleton,
      ← newest_newest_append, hrest, hfirst.frames, newest_compacted,
      newest_compacted_append, hnext, hlast]
    rw [segment_append (by omega) (by omega) (h.commits_le _ hfirst.whole)]

theorem Holds.of_merge (h : SourceInv s) {parts : List (Snapshot α)}
    (hall : ∀ p ∈ parts, Holds s.history s.commits p) (hcont : contiguous parts = true)
    {made : Snapshot α} (hmade : mergeSnapshots parts = some made) :
    Holds s.history s.commits made := by
  cases parts with
  | nil => cases hmade
  | cons first rest =>
    obtain ⟨b, hb, rfl⟩ := Option.map_eq_some_iff.1 hmade
    obtain ⟨hnewest, hle⟩ := newest_parts h hall hcont
    have hframes := SnapshotBuilder.appendFrames_frames hb
    refine ⟨hle, (hall _ (getLast_mem _)).whole, ?_⟩
    rw [hframes]
    show [] ++ (newest Frame.pageNo [] _).map Frame.clear = _
    rw [hnewest, map_clear_compacted, nil_append]

namespace SourceInv

theorem snapshot (h : SourceInv s) : SourceInv s.snapshot := by
  unfold Source.snapshot
  split
  · exact h
  rename_i log rest hqueue
  split
  · exact h
  rename_i made hmade
  exact
    { h with
      toCompact := fun log' hlog' =>
        h.toCompact log' (by rw [hqueue]; exact mem_cons_of_mem _ hlog')
      snapshots := by
        have hout := h.toCompact log (by rw [hqueue]; exact mem_cons_self ..)
        exact forall_mem_cons.2 ⟨Holds.of_compaction h hout hmade, h.snapshots⟩ }

theorem merge (h : SourceInv s) (places : List ℕ) : SourceInv (s.merge places) := by
  unfold Source.merge
  dsimp only
  split
  swap
  · exact h
  rename_i hcont
  split
  · exact h
  rename_i made hmade
  exact
    { h with
      snapshots := by
        refine forall_mem_cons.2 ⟨Holds.of_merge h (fun p hp => ?_) hcont hmade, h.snapshots⟩
        obtain ⟨i, -, hi⟩ := mem_filterMap.1 hp
        exact h.snapshots p (mem_of_getElem? hi) }

theorem step (h : SourceInv s) (a : SourceAction α) : SourceInv (s.step a) := by
  cases a with
  | push pageNo sizeAfter page => exact h.push pageNo sizeAfter page
  | commit => exact h.commit
  | rollback => exact h.rollback
  | compact => exact h.compact
  | snapshot => exact h.snapshot
  | merge places => exact h.merge places
  | remove place =>
    exact { h with snapshots := fun p hp => h.snapshots p (mem_of_mem_eraseIdx hp) }

end SourceInv

theorem Extends.same {s' : Source α} (hhistory : s'.history = s.history)
    (hcommits : s'.commits = s.commits) : Extends s s' :=
  ⟨⟨[], by rw [hhistory, append_nil]⟩, fun _ h => hcommits ▸ h⟩

theorem Extends.step (s : Source α) (a : SourceAction α) : Extends s (s.step a) := by
  cases a with
  | push | rollback | remove => exact .same rfl rfl
  | commit => exact ⟨⟨s.log.uncommitted, rfl⟩, fun _ h => mem_append_left _ h⟩
  | compact | snapshot | merge =>
    -- whether or not a log is swapped out, or a snapshot written
    simp only [Source.step, Source.compact, Source.snapshot, Source.merge]
    repeat' split
    all_goals exact .same rfl rfl

/-! ### What the fork reads -/

theorem Extends.pagesAt {s s' : Source α} (h : Extends s s') (hn : n ≤ s.history.length) :
    s'.pagesAt n = s.pagesAt n := by
  obtain ⟨more, hmore⟩ := h.history
  rw [Source.pagesAt, Source.pagesAt, hmore, take_append_of_le_length hn]

theorem Extends.length_le {s s' : Source α} (h : Extends s s') :
    s.history.length ≤ s'.history.length := by
  obtain ⟨more, hmore⟩ := h.history
  rw [hmore, length_append]
  omega

theorem pagesAt_succ {frame : Frame α} (h : s.history[n]? = some frame) :
    s.pagesAt (n + 1) = Function.update (s.pagesAt n) frame.pageNo (some frame.page) := by
  rw [Source.pagesAt, take_add_one, h]
  exact write_concat _ _

theorem takeWhile_append_of {β : Type*} {p : β → Bool} {xs ys : List β} (hxs : ∀ x ∈ xs, p x = true)
    (hys : ∀ y ∈ ys, p y = false) : (xs ++ ys).takeWhile p = xs := by
  rw [takeWhile_append_of_pos hxs]
  cases ys with
  | nil => exact append_nil xs
  | cons y ys =>
    rw [takeWhile_cons_of_neg (by rw [hys y (mem_cons_self ..)]; nofun), append_nil]

/-- The newest frames from number `n` on come first in a snapshot. -/
theorem Holds.split {commits : List ℕ} {snapshot : Snapshot α} (hold : Holds history commits snapshot)
    (hnumbered : Numbered history) (hlen : snapshot.endFrameNo + 1 ≤ history.length)
    (hstart : snapshot.startFrameNo ≤ n) (hend : n ≤ snapshot.endFrameNo) :
    ∃ rest, snapshot.frames = compacted (segment history n (snapshot.endFrameNo + 1)) ++ rest ∧
      (∀ frame ∈ compacted (segment history n (snapshot.endFrameNo + 1)),
        n ≤ frame.frameNo ∧ frame.frameNo < snapshot.endFrameNo + 1) ∧
      ∀ frame ∈ rest, frame.frameNo < n := by
  obtain ⟨rest, hsplit, hrest⟩ := compacted_append (segment history snapshot.startFrameNo n)
    (segment history n (snapshot.endFrameNo + 1))
  rw [segment_append hstart (by omega) (by omega), ← hold.frames] at hsplit
  refine ⟨rest, hsplit, fun frame hframe => ?_, fun frame hframe => ?_⟩
  · obtain ⟨frame', hframe', rfl⟩ := mem_compacted hframe
    have hbounds := hnumbered.of_mem_segment hframe'
    exact hbounds
  · obtain ⟨frame', hframe', heq⟩ := hrest frame hframe
    rw [heq]
    exact (hnumbered.of_mem_segment hframe').2

/-- **What a fork reads from a snapshot** that has its next frame: on the database before that frame it
writes the database after the last frame of the snapshot, and it comes to that frame first. -/
theorem Holds.read (h : SourceInv s) {snapshot : Snapshot α}
    (hold : Holds s.history s.commits snapshot) (hstart : snapshot.startFrameNo ≤ n)
    (hend : n ≤ snapshot.endFrameNo) :
    writeFrames (s.pagesAt n) (snapshot.frames.takeWhile fun frame => decide (n ≤ frame.frameNo)) =
        s.pagesAt (snapshot.endFrameNo + 1) ∧
      (∃ frame frames, snapshot.frames = frame :: frames ∧
        frame.frameNo = snapshot.endFrameNo) ∧
      ∀ frame ∈ snapshot.frames, frame.frameNo ≤ snapshot.endFrameNo := by
  have hlen := h.commits_le _ hold.whole
  obtain ⟨rest, hsplit, hnewer, holder⟩ := hold.split h.numbered hlen hstart hend
  refine ⟨?_, ?_, ?_⟩
  · have htake : snapshot.frames.takeWhile (fun frame => decide (n ≤ frame.frameNo)) =
        compacted (segment s.history n (snapshot.endFrameNo + 1)) := by
      rw [hsplit]
      exact takeWhile_append_of (fun frame hframe => decide_eq_true (hnewer frame hframe).1)
        fun frame hframe => decide_eq_false (Nat.not_le_of_lt (holder frame hframe))
    rw [htake, writeFrames_compacted, Source.pagesAt, Source.pagesAt, writeFrames, writeFrames,
      ← write_append, take_append_segment (by omega)]
  · obtain ⟨-, last, -, -, hlast, hlastNo⟩ :=
      segment_ends h.numbered (show n < snapshot.endFrameNo + 1 by omega) hlen
    obtain ⟨frames, hframes⟩ := compacted_head hlast
    exact ⟨last.clear, frames ++ rest, by rw [hsplit, hframes, cons_append],
      Nat.succ.inj hlastNo⟩
  · intro frame hframe
    rw [hsplit] at hframe
    rcases mem_append.1 hframe with hframe | hframe
    · exact Nat.le_of_lt_succ (hnewer frame hframe).2
    · have := holder frame hframe
      omega

/-! ### The fork -/

/-- The file is the database after the frames before number `n`. -/
structure At (s : Source α) (file : Pages α) (n : ℕ) : Prop where
  file : file = s.pagesAt n
  le : n ≤ s.history.length

/-- The fork is between transactions, and the loop would not end one frame short. -/
structure Between (s : Source α) (endFrameNo : Option ℕ) (n : ℕ) : Prop where
  whole : n ∈ s.commits
  past : endFrameNo ≠ some n

/-- What holds in each phase of a fork. -/
def PhaseOk (s : Source α) (t : ForkTask α) : Phase α → Prop
  | .looping => At s t.file t.nextFrameNo ∧ Between s t.endFrameNo t.nextFrameNo
  | .streaming stream =>
    At s t.file t.nextFrameNo ∧
      if stream.closed then Between s t.endFrameNo t.nextFrameNo
      else stream.currentFrameNo = t.nextFrameNo
  | .waiting stream => At s t.file t.nextFrameNo ∧ stream.closed = true
  | .reading stream start _ frames =>
    stream.closed = true ∧
      -- the snapshot ends with frame `last`
      ∃ last, Between s t.endFrameNo (last + 1) ∧ t.nextFrameNo ≤ last + 1 ∧
        At s (writeFrames t.file (frames.takeWhile fun frame => decide (start ≤ frame.frameNo)))
          (last + 1) ∧
        (∀ frame ∈ frames, frame.frameNo ≤ last) ∧
        (t.nextFrameNo = last + 1 ∨
          start ≤ last ∧ ∃ frame rest, frames = frame :: rest ∧ frame.frameNo = last)
  | .done =>
    At s t.file t.nextFrameNo ∧ Between s t.endFrameNo t.nextFrameNo ∧
      ∀ endFrameNo, t.endFrameNo = some endFrameNo → endFrameNo ≤ t.nextFrameNo
  | .failed => True

/-- The last frame when the fork started, and its phase. -/
structure ForkInv (s : Source α) (startedAt : ℕ) (t : ForkTask α) : Prop where
  empty : t.endFrameNo = none → startedAt = 0
  last : ∀ endFrameNo, t.endFrameNo = some endFrameNo → startedAt = endFrameNo + 1
  started : startedAt ≤ s.history.length
  phase : PhaseOk s t t.phase

section Extends

variable {s' : Source α} (h : Extends s s')
include h

theorem At.extends {file : Pages α} (hat : At s file n) : At s' file n :=
  ⟨by rw [h.pagesAt hat.le, hat.file], Nat.le_trans hat.le h.length_le⟩

theorem Between.extends {endFrameNo : Option ℕ} (hb : Between s endFrameNo n) :
    Between s' endFrameNo n := ⟨h.commits n hb.whole, hb.past⟩

theorem ForkInv.extends {startedAt : ℕ} {t : ForkTask α} (hinv : ForkInv s startedAt t) :
    ForkInv s' startedAt t := by
  refine { hinv with
    started := Nat.le_trans hinv.started h.length_le
    phase := ?_ }
  have hphase := hinv.phase
  revert hphase
  cases t.phase with
  | looping => exact fun ⟨hat, hb⟩ => ⟨hat.extends h, hb.extends h⟩
  | streaming stream =>
    rintro ⟨hat, hstream⟩
    refine ⟨hat.extends h, ?_⟩
    split
    · next hclosed =>
      rw [if_pos hclosed] at hstream
      exact hstream.extends h
    · next hopen =>
      rw [if_neg hopen] at hstream
      exact hstream
  | waiting stream => exact fun ⟨hat, hclosed⟩ => ⟨hat.extends h, hclosed⟩
  | reading stream start previous frames =>
    rintro ⟨hclosed, last, hb, hle, hat, hrest⟩
    exact ⟨hclosed, last, hb.extends h, hle, hat.extends h, hrest⟩
  | done => exact fun ⟨hat, hb, hend⟩ => ⟨hat.extends h, hb.extends h, hend⟩
  | failed => exact id

end Extends

namespace ForkInv

variable {startedAt : ℕ} {t : ForkTask α} {stream : FrameStream}

theorem new (h : SourceInv s) (hnot : s.log.lastFrameNo ≠ some 0) :
    ForkInv s s.history.length (ForkTask.new s.log.lastFrameNo) where
  empty := h.logOf.lastFrameNo_none
  last := fun _ hlast => h.logOf.lastFrameNo_some hlast
  started := Nat.le_refl _
  phase := ⟨⟨rfl, Nat.zero_le _⟩, h.zero, hnot⟩

variable (h : ForkInv s startedAt t)
include h

theorem phaseOk {phase : Phase α} (hphase : t.phase = phase) : PhaseOk s t phase :=
  hphase ▸ h.phase

theorem check (hphase : t.phase = .looping) :
    ForkInv s startedAt t.check := by
  obtain ⟨hat, hb⟩ := h.phaseOk hphase
  unfold ForkTask.check
  split
  · next hnone =>
    refine { h with phase := ⟨hat, hb, ?_⟩ }
    intro endFrameNo hend
    simp [hnone] at hend
  · next endFrameNo hsome =>
    split
    · exact { h with phase := ⟨hat, rfl⟩ }
    rename_i hge
    refine { h with phase := ⟨hat, hb, ?_⟩ }
    intro endFrameNo' hend
    rw [hsome] at hend
    cases hend
    exact Nat.le_of_not_lt hge

/-- A stream that has come to the end of the log has come past the last frame there was. -/
theorem past_of_started (hn : s.history.length ≤ n) :
    t.endFrameNo ≠ some n := by
  intro hend
  have hstarted := h.started
  rw [h.last n hend] at hstarted
  omega

theorem poll (hs : SourceInv s)
    (hphase : t.phase = .streaming stream) : ForkInv s startedAt (t.poll stream s.log) := by
  obtain ⟨hat, hstream⟩ := h.phaseOk hphase
  unfold ForkTask.poll FrameStream.next
  by_cases hclosed : stream.closed = true
  · rw [if_pos hclosed] at hstream ⊢
    exact { h with phase := ⟨hat, hstream⟩ }
  · rw [if_neg hclosed] at hstream ⊢
    rcases hs.logOf.frame_cases stream.currentFrameNo with
      ⟨frame, hframe, hget⟩ | ⟨hframe, hle⟩ | hframe
    · -- the next frame is in the log
      have hno := hs.numbered _ frame hget
      rw [hframe]
      refine { h with phase := ?_ }
      have hnext : max t.nextFrameNo (frame.frameNo + 1) = t.nextFrameNo + 1 := by omega
      refine ⟨?_, ?_⟩
      · show At s (Function.update t.file frame.pageNo (some frame.page))
          (max t.nextFrameNo (frame.frameNo + 1))
        rw [hstream] at hget
        rw [hnext, hat.file, ← pagesAt_succ hget]
        exact ⟨rfl, (List.getElem?_eq_some_iff.1 hget).1⟩
      · rw [if_neg hclosed, hstream]
        exact hnext.symm
    · -- the log has no more frames
      rw [hframe]
      rw [hstream] at hle
      have hall : t.nextFrameNo = s.history.length := Nat.le_antisymm hat.le hle
      refine { h with phase := ⟨hat, ?_, h.past_of_started hle⟩ }
      rw [hall]
      exact hs.last
    · -- the log does not have the next frame any more
      rw [hframe]
      exact { h with phase := ⟨hat, rfl⟩ }

theorem find (hs : SourceInv s)
    (hphase : t.phase = .waiting stream) {snapshot : Snapshot α} (hmem : snapshot ∈ s.snapshots)
    (hpast : snapshot.startFrameNo ≤ t.nextFrameNo → t.nextFrameNo ≤ snapshot.endFrameNo →
      t.endFrameNo ≠ some (snapshot.endFrameNo + 1)) :
    ForkInv s startedAt (t.find stream snapshot) := by
  obtain ⟨hat, hclosed⟩ := h.phaseOk hphase
  have hold := hs.snapshots snapshot hmem
  unfold ForkTask.find
  split
  · next hcovers =>
    obtain ⟨hread, hfirst, hle⟩ := hold.read hs hcovers.1 hcovers.2
    rw [← hat.file] at hread
    refine { h with phase := ⟨hclosed, snapshot.endFrameNo, ?_, ?_, ?_, hle, ?_⟩ }
    · exact ⟨hold.whole, hpast hcovers.1 hcovers.2⟩
    · exact Nat.le_succ_of_le hcovers.2
    · exact ⟨hread, hs.commits_le _ hold.whole⟩
    · exact Or.inr ⟨hcovers.2, hfirst⟩
  · exact h

theorem read {start : ℕ} {previous : Option ℕ} {frames : List (Frame α)}
    (hphase : t.phase = .reading stream start previous frames) :
    ForkInv s startedAt (t.read stream start previous frames) := by
  obtain ⟨hclosed, last, hb, hle, hat, hall, hlast⟩ := h.phaseOk hphase
  cases frames with
  | nil =>
    have hnext : t.nextFrameNo = last + 1 := by
      rcases hlast with hnext | ⟨-, frame, rest, hnil, -⟩
      · exact hnext
      · cases hnil
    refine { h with phase := ⟨?_, ?_⟩ }
    · show At s t.file t.nextFrameNo
      rw [hnext]
      exact hat
    · rw [if_pos hclosed]
      show Between s t.endFrameNo t.nextFrameNo
      rw [hnext]
      exact hb
  | cons frame frames =>
    rw [ForkTask.read]
    split
    · exact { h with phase := trivial }
    split
    · next hfrom =>
      have hno := hall frame (mem_cons_self ..)
      rw [takeWhile_cons_of_pos (by simpa using hfrom)] at hat
      refine { h with phase := ⟨hclosed, last, hb, ?_, hat, ?_, ?_⟩ }
      · show max t.nextFrameNo (frame.frameNo + 1) ≤ last + 1
        omega
      · exact fun frame' hframe' => hall frame' (mem_cons_of_mem _ hframe')
      · left
        show max t.nextFrameNo (frame.frameNo + 1) = last + 1
        rcases hlast with hnext | ⟨-, frame', rest, heq, hlast⟩
        · omega
        · obtain ⟨rfl, -⟩ := cons.inj heq
          omega
    · next hstop =>
      have hnext : t.nextFrameNo = last + 1 := by
        rcases hlast with hnext | ⟨hstart, frame', rest, heq, hlast⟩
        · exact hnext
        · obtain ⟨rfl, -⟩ := cons.inj heq
          omega
      rw [takeWhile_cons_of_neg (by simpa using hstop)] at hat
      refine { h with phase := ⟨?_, ?_⟩ }
      · rw [hnext]
        exact hat
      · rw [if_pos hclosed]
        rw [hnext]
        exact hb

end ForkInv

/-! ### Runs -/

namespace Sys

structure Inv (s : Sys α) : Prop where
  source : SourceInv s.source
  fork : ∀ t, s.fork = some t → ForkInv s.source s.startedAt t

/-- A fork is not started while the source has one frame only, and it does not read a snapshot that
ends just before the frame that was the last one when it started. -/
def Careful (s : Sys α) : Action α → Prop
  | .start => s.source.log.lastFrameNo ≠ some 0
  | .find place => ∀ t snapshot, s.fork = some t → s.source.snapshots[place]? = some snapshot →
      snapshot.startFrameNo ≤ t.nextFrameNo → t.nextFrameNo ≤ snapshot.endFrameNo →
      t.endFrameNo ≠ some (snapshot.endFrameNo + 1)
  | _ => True

variable {s s' : Sys α}

theorem Inv.setFork (h : s.Inv) {t : ForkTask α} (ht : ForkInv s.source s.startedAt t) :
    (s.setFork t).Inv where
  source := h.source
  fork := by
    rintro t' ⟨⟩
    exact ht

theorem Inv.step (h : s.Inv) {a : Action α} (hok : s.Careful a) (hstep : s.step a = some s') :
    s'.Inv := by
  cases a <;> simp only [Sys.step] at hstep
  case source a =>
    cases hstep
    exact ⟨h.source.step a, fun t ht => (h.fork t ht).extends (Extends.step _ a)⟩
  case start =>
    split_ifs at hstep
    cases hstep
    refine ⟨h.source, ?_⟩
    rintro t ⟨⟩
    exact ForkInv.new h.source hok
  case check =>
    split at hstep
    · cases hstep
    rename_i t ht
    split at hstep
    · next hphase =>
      cases hstep
      exact h.setFork ((h.fork t ht).check hphase)
    · cases hstep
  case poll =>
    split at hstep
    · cases hstep
    rename_i t ht
    split at hstep
    · next stream hphase =>
      cases hstep
      exact h.setFork ((h.fork t ht).poll h.source hphase)
    · cases hstep
  case find place =>
    split at hstep
    · cases hstep
    rename_i t ht
    split at hstep
    · next stream snapshot hphase hget =>
      cases hstep
      exact h.setFork ((h.fork t ht).find h.source hphase (mem_of_getElem? hget)
        (hok t snapshot ht hget))
    · cases hstep
  case read =>
    split at hstep
    · cases hstep
    rename_i t ht
    split at hstep
    · next stream start previous frames hphase =>
      cases hstep
      exact h.setFork ((h.fork t ht).read hphase)
    · cases hstep
  case fail =>
    split at hstep
    · cases hstep
    rename_i t ht
    split at hstep
    · cases hstep
    · cases hstep
      exact h.setFork { h.fork t ht with phase := trivial }

/-- The file of a fork that is done has every page as it was after some transaction of the source, and
no transaction that was committed when the fork started is missing. -/
def Copied (s : Sys α) : Prop :=
  ∀ t, s.fork = some t → t.phase = .done →
    ∃ n ∈ s.source.commits, s.startedAt ≤ n ∧ ∀ page, t.file page = s.source.pagesAt n page

theorem Inv.all_copied (h : s.Inv) : s.Copied := by
  intro t ht hdone
  have hinv := h.fork t ht
  obtain ⟨hat, hb, hend⟩ := hinv.phaseOk hdone
  refine ⟨t.nextFrameNo, hb.whole, ?_, fun page => congrFun hat.file page⟩
  cases hlast : t.endFrameNo with
  | none =>
    rw [hinv.empty hlast]
    exact Nat.zero_le _
  | some endFrameNo =>
    have hle := hend endFrameNo hlast
    have hne : endFrameNo ≠ t.nextFrameNo := by
      rintro rfl
      exact hb.past hlast
    rw [hinv.last endFrameNo hlast]
    omega

/-- **Forks are copies**: in every run, with any transactions and compactions before and during the
fork, in which the fork does not stop one frame short, it copies the source as it was after some
transaction, with all that had been committed when it started. -/
theorem copied {as : List (Action α)} (hok : Run.Along step Careful Sys.new as)
    (hrun : Run.exec step Sys.new as = some s) : s.Copied := by
  have hnew : (Sys.new : Sys α).Inv := ⟨SourceInv.new, nofun⟩
  have hinv := Run.exec_invariant (fun _ _ _ h hok hstep => Inv.step h hok hstep) hnew hok hrun
  exact hinv.all_copied

/-- A database of two pages, whose log is compacted, and a fork that finds the first transaction in a
snapshot; `more` is written in between. -/
def forked (more : List (Action ℕ)) : List (Action ℕ) :=
  [.source (.push 1 0 10), .source (.push 2 2 20), .source .commit, .source .compact,
    .source .snapshot] ++ more ++
  [.source .commit, .start, .check, .poll, .find 0, .read, .read, .read, .poll, .check]

/-- The fork goes on with the log, while another transaction commits. -/
def withTwoMore : List (Action ℕ) :=
  forked [.source (.push 1 0 11), .source (.push 2 2 21)] ++
    [.poll, .source (.push 2 2 22), .source .commit, .poll, .poll, .poll, .check]

instance (s : Sys α) (a : Action α) : Decidable (s.Careful a) := by
  unfold Careful
  split
  case h_2 place =>
    exact decidable_of_iff
      (∀ t, s.fork = some t → ∀ snapshot, s.source.snapshots[place]? = some snapshot → _)
      ⟨fun h t snapshot ht => h t ht snapshot, fun h t ht snapshot => h t snapshot ht⟩
  all_goals infer_instance

theorem copied_withTwoMore :
    (Run.exec step Sys.new withTwoMore).map
        (fun s => (s.fork.map fun t => (t.nextFrameNo, t.file 2), s.source.commits)) =
      some (some (5, some 22), [0, 2, 4, 5]) ∧
    ∀ s, Run.exec step Sys.new withTwoMore = some s → s.Copied := by
  have hok : Run.Along step Careful Sys.new withTwoMore := by decide +kernel
  exact ⟨by decide +kernel, fun s hrun => copied hok hrun⟩

/-- **The last frame is missing** when it is a transaction of its own and follows the last one of the
snapshot that the fork has read: the loop ends at its number, and not after it. -/
theorem last_frame_missing : ∃ s : Sys ℕ,
    Run.exec step Sys.new (forked [.source (.push 1 2 11)]) = some s ∧ ¬ s.Copied := by
  refine ⟨_, rfl, ?_⟩
  intro h
  obtain ⟨n, hn, hle, hpages⟩ := h _ rfl rfl
  have hn : n ∈ [0, 2, 3] := hn
  have hle : 3 ≤ n := hle
  obtain rfl : n = 3 := by
    simp only [List.mem_cons, List.not_mem_nil, or_false] at hn
    omega
  have hpage : some 10 = some 11 := hpages 1
  cases hpage

end Sys

end SqlAnywhere.Server.ForkLog
