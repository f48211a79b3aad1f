import SqlAnywhere.Replication.Injector
import SqlAnywhere.Server.SnapshotFile

/-!
# Loading a snapshot into a replica

A replica whose next frame is no longer in the log of its primary is sent the rest of a snapshot, in
descending order and as one transaction.

* `loadSnapshot` — the stream of a snapshot is given to the injector
* `Carried.injectStream` — a stream with one commit, at its end
* `snapshot_loaded_iff` — when pages and number are those of the log
-/

namespace SqlAnywhere.Replication

open List
open Server.ReplicationLog Server.ForkLog

variable {α : Type*}

/-- Give a stream to the injector, up to its first error, and collect the numbers of the commits. -/
def injectStream (i : SqliteInjector α) :
    List (Except Unit (Frame α)) → SqliteInjector α × Except Unit (List ℕ)
  | [] => (i, .ok [])
  | .error e :: _ => (i, .error e)
  | .ok frame :: stream =>
    match i.injectFrame frame .none with
    | (i, .error e) => (i, .error e)
    | (i, .ok ret) =>
      let r := injectStream i stream
      (r.1, r.2.map (ret.toList ++ ·))

/-- `load_snapshot` of the replicator: what is left of a transaction is rolled back first. -/
def loadSnapshot (i : SqliteInjector α) (stream : List (Except Unit (Frame α))) :
    SqliteInjector α × Except Unit (List ℕ) :=
  injectStream i.rollback stream

theorem Carried.injectStream {i₀ i : SqliteInjector α} {frames init : List (Frame α)}
    {last : Frame α} {n : ℕ} (h : Carried i₀ frames i)
    (hord : Ordered (frames ++ (init ++ [last]))) (hn : Greatest (frames ++ (init ++ [last])) n)
    (hinit : ∀ frame ∈ init, frame.sizeAfter = 0) (hlast : last.sizeAfter ≠ 0) :
    (Replication.injectStream i ((init ++ [last]).map .ok)).2 =
        .ok [max i₀.biggestUncommittedSeen n] ∧
      (Replication.injectStream i ((init ++ [last]).map .ok)).1.db =
        writeFrames i₀.db (frames ++ (init ++ [last])) := by
  induction init generalizing i frames with
  | nil =>
    rw [nil_append] at hord hn ⊢
    have htaken := h.inject hord .none
    have hok := injectFrame_none_ok i last
    rw [map_singleton, Replication.injectStream]
    generalize i.injectFrame last .none = r at htaken hok
    obtain ⟨i', ret⟩ := r
    cases htaken with
    | carried hzero _ => exact absurd hzero hlast
    | committed _ hn' hdb _ _ =>
      rw [hn.unique hn']
      exact ⟨rfl, hdb⟩
    | failed | unrefreshed => exact absurd rfl hok
  | cons frame init ih =>
    rw [cons_append, append_cons] at hord hn
    have htaken := h.inject (hord.sublist (sublist_append_left ..)) .none
    have hok := injectFrame_none_ok i frame
    rw [cons_append, map_cons, Replication.injectStream]
    generalize i.injectFrame frame .none = r at htaken hok
    obtain ⟨i', ret⟩ := r
    cases htaken with
    | carried _ hcarried =>
      obtain ⟨hnumbers, hdb⟩ := ih hcarried hord hn fun f hf => hinit f (mem_cons_of_mem _ hf)
      dsimp only
      rw [hnumbers, hdb, append_assoc]
      exact ⟨rfl, rfl⟩
    | committed hne _ _ _ _ => exact absurd (hinit frame (mem_cons_self ..)) hne
    | failed | unrefreshed => exact absurd rfl hok

/-- A list of frames, each page once and in descending order, with the commit at its end. -/
structure OneCommit (init : List (Frame α)) (last : Frame α) : Prop where
  descending : Descending (init ++ [last])
  nodup : ((init ++ [last]).map Frame.pageNo).Nodup
  init : ∀ frame ∈ init, frame.sizeAfter = 0
  last : last.sizeAfter ≠ 0

theorem OneCommit.greatest {init : List (Frame α)} {last : Frame α} {n : ℕ}
    (h : OneCommit init last) (hhead : ∀ first ∈ (init ++ [last]).head?, first.frameNo = n) :
    Greatest (init ++ [last]) n := by
  have hdesc := h.descending
  obtain ⟨first, rest, hcons⟩ := exists_cons_of_ne_nil (show init ++ [last] ≠ [] by simp)
  rw [hcons] at hdesc hhead ⊢
  obtain rfl := hhead first rfl
  refine ⟨⟨first, mem_cons_self .., rfl⟩, ?_⟩
  rintro m ⟨frame, hframe, rfl⟩
  rcases mem_cons.1 hframe with rfl | hframe
  · exact Nat.le_refl _
  · exact Nat.le_of_lt ((pairwise_cons.1 hdesc).1 frame hframe)

theorem compacted_nodup (frames : List (Frame α)) :
    ((compacted frames).map Frame.pageNo).Nodup := by
  rw [compacted, map_map]
  exact Overwrite.nodup_keys_newest []

theorem sizeAfter_compacted {frames : List (Frame α)} {frame : Frame α}
    (h : frame ∈ compacted frames) : frame.sizeAfter = 0 := by
  obtain ⟨frame', -, rfl⟩ := mem_compacted h
  rfl

section

variable {history : List (Frame α)} {s : SnapshotFile α} {offset : ℕ}

/-- What the stream of a snapshot file is like: the first frame is the end of the file, and they are
the pages of the log. -/
theorem stream_spec (hlog : Committed history) (hmade : Made history s)
    (hstart : s.startFrameNo ≤ offset) (hend : offset ≤ s.endFrameNo) :
    ∃ init last, makeSnapshotStream s offset = (init ++ [last]).map .ok ∧ OneCommit init last ∧
      (∀ first ∈ (init ++ [last]).head?, first.frameNo = s.endFrameNo) ∧
      ∀ db, writeFrames db (init ++ [last]) =
        writeFrames db (segment history offset (s.endFrameNo + 1)) := by
  obtain ⟨init, last, hcompacted, hstream⟩ := hmade.stream hlog hstart hend
  have hle := hlog.commits_le (hmade.holds hlog).whole
  obtain ⟨-, newest, -, -, hnewest, hnewestNo⟩ := segment_ends hlog.numbered
    (show offset < s.endFrameNo + 1 by omega) hle
  obtain ⟨rest, hrest⟩ := compacted_head hnewest
  -- the size on the last frame changes neither numbers nor pages
  have hnumbers : (init ++ [{ last with sizeAfter := s.sizeAfter }]).map Frame.frameNo =
      (compacted (segment history offset (s.endFrameNo + 1))).map Frame.frameNo := by
    rw [hcompacted, map_append, map_append]
    rfl
  have hpages : (init ++ [{ last with sizeAfter := s.sizeAfter }]).map Frame.pageNo =
      (compacted (segment history offset (s.endFrameNo + 1))).map Frame.pageNo := by
    rw [hcompacted, map_append, map_append]
    rfl
  refine ⟨init, _, hstream, ⟨?_, ?_, ?_, ?_⟩, ?_, ?_⟩
  · have hpair : ((init ++ [{ last with sizeAfter := s.sizeAfter }]).map Frame.frameNo).Pairwise
        (· > ·) := by
      rw [hnumbers]
      exact pairwise_map.2 (compacted_descending hlog.numbered ..)
    exact pairwise_map.1 hpair
  · rw [hpages]
    exact compacted_nodup _
  · intro frame hframe
    exact sizeAfter_compacted (by rw [hcompacted]; exact mem_append_left _ hframe)
  · exact hmade.size_ne_zero hlog
  · intro first hfirst
    have hhead : ((init ++ [{ last with sizeAfter := s.sizeAfter }]).map Frame.frameNo).head? =
        some first.frameNo := by
      rw [head?_map, Option.mem_def.1 hfirst]
      rfl
    rw [hnumbers, hrest] at hhead
    have hhead : newest.frameNo = first.frameNo := Option.some.inj hhead
    omega
  · intro db
    rw [← writeFrames_compacted db (segment ..), hcompacted, writeFrames, writeFrames,
      Overwrite.write_concat, Overwrite.write_concat]

/-- **A snapshot is loaded as the frames of the log that it stands for.**  Its stream has each page
once, in descending order, and one commit, at its end; the pages after it are those after the frames
up to the end of the snapshot; and the commit has the number of that end, unless the injector has not
forgotten a larger one. -/
theorem snapshot_loaded_iff (hlog : Committed history) (hmade : Made history s)
    (hstart : s.startFrameNo ≤ offset) (hend : offset ≤ s.endFrameNo) (i : SqliteInjector α) :
    ((∃ init last, makeSnapshotStream s offset = (init ++ [last]).map .ok ∧ OneCommit init last) ∧
        (loadSnapshot i (makeSnapshotStream s offset)).1.db =
          writeFrames i.db (segment history offset (s.endFrameNo + 1)) ∧
        (loadSnapshot i (makeSnapshotStream s offset)).2 = .ok [s.endFrameNo]) ↔
      i.biggestUncommittedSeen ≤ s.endFrameNo := by
  obtain ⟨init, last, hstream, hone, hhead, hpages⟩ := stream_spec hlog hmade hstart hend
  obtain ⟨hnumbers, hdb⟩ := (Idle.rollback i).carried.injectStream
    (.inr (hone.descending.imp Nat.le_of_lt)) (hone.greatest hhead) hone.init hone.last
  rw [loadSnapshot, hstream, hnumbers, hdb, List.nil_append, hpages]
  constructor
  · rintro ⟨-, -, heq⟩
    have heq : max i.biggestUncommittedSeen s.endFrameNo = s.endFrameNo :=
      List.head_eq_of_cons_eq (Except.ok.inj heq)
    omega
  · intro hbiggest
    have hmax : max i.rollback.biggestUncommittedSeen s.endFrameNo = s.endFrameNo :=
      Nat.max_eq_right hbiggest
    rw [hmax]
    exact ⟨⟨init, last, rfl, hone⟩, rfl, rfl⟩

end

section Example

/-- Four transactions of one frame each. -/
def fourFrames : List (Frame ℕ) := [⟨0, 1, 2, 10⟩, ⟨1, 2, 2, 11⟩, ⟨2, 1, 2, 12⟩, ⟨3, 2, 2, 13⟩]

theorem fourFrames_committed : Committed fourFrames where
  numbered := by
    intro i frame hi
    rcases i with _ | _ | _ | _ | i
    · cases hi
      rfl
    · cases hi
      rfl
    · cases hi
      rfl
    · cases hi
      rfl
    · cases hi
  last := by decide

/-- The snapshot of the frames from 1 to 2. -/
def shortFile : SnapshotFile ℕ := ⟨⟨1, 2, [⟨2, 1, 0, 12⟩, ⟨1, 2, 0, 11⟩]⟩, 2⟩

/-- The snapshot of the frames from 1 to 3. -/
def longFile : SnapshotFile ℕ := ⟨⟨1, 3, [⟨3, 2, 0, 13⟩, ⟨2, 1, 0, 12⟩]⟩, 2⟩

theorem shortFile_made : Made fourFrames shortFile :=
  .compaction (show SwappedOut fourFrames (commitsOf fourFrames)
    ⟨1, [⟨1, 2, 2, 11⟩, ⟨2, 1, 2, 12⟩], []⟩ from ⟨nofun, by decide, rfl⟩) rfl

theorem longFile_made : Made fourFrames longFile :=
  .compaction (show SwappedOut fourFrames (commitsOf fourFrames)
    ⟨1, [⟨1, 2, 2, 11⟩, ⟨2, 1, 2, 12⟩, ⟨3, 2, 2, 13⟩], []⟩ from ⟨nofun, by decide, rfl⟩) rfl

/-- A replica with the first frame. -/
def firstApplied : SqliteInjector ℕ := .new 1 (writeFrames (fun _ => none) (fourFrames.take 1))

theorem snapshot_loaded_iff_short :
    (loadSnapshot firstApplied (makeSnapshotStream shortFile 1)).1.db =
        writeFrames firstApplied.db (segment fourFrames 1 3) ∧
      (loadSnapshot firstApplied (makeSnapshotStream shortFile 1)).2 = .ok [2] :=
  ((snapshot_loaded_iff fourFrames_committed shortFile_made (by decide) (by decide)
    firstApplied).2 (by decide)).2

/-- The replica is sent one frame of the longer snapshot before the stream breaks off, and then the
shorter one: the commit has the number of a frame that it was not sent again. -/
theorem snapshot_loaded_late :
    Made fourFrames longFile ∧ Made fourFrames shortFile ∧
      (loadSnapshot (loadSnapshot firstApplied ((makeSnapshotStream longFile 1).take 1)).1
        (makeSnapshotStream shortFile 1)).2 = .ok [3] ∧ shortFile.endFrameNo = 2 :=
  ⟨longFile_made, shortFile_made, by decide +kernel, rfl⟩

end Example

end SqlAnywhere.Replication
