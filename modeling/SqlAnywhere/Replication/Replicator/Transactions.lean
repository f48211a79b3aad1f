import Mathlib.Data.List.MinMax
import Mathlib.Data.Nat.Find
import Mathlib.Order.Nat
import SqlAnywhere.Replication.Replicator

/-!
# Streams of whole transactions

What a primary sends is a sequence of transactions: those of its log, one after the other, or one that
stands for all of them, from a snapshot.

* `Txn`, `Plan` — frames that take a database from one boundary of the log to another
* `Reaches` — what is left of a stream while it is injected
-/

namespace SqlAnywhere.Replication.Replicator

open List
open Server.ReplicationLog Server.ForkLog

variable {α : Type*} {history : List (Frame α)} {logStart q t n : ℕ} {frames : List (Frame α)}
  {more : List (Frame α)} {logStart' : ℕ} {frame : Frame α}

theorem largest_of_greatest (h : Greatest frames n) : largest frames = n := by
  obtain ⟨⟨frame, hframe, rfl⟩, hle⟩ := h
  refine Nat.le_antisymm (max_le_of_forall_le _ _ ?_)
    (le_max_of_le (mem_map_of_mem hframe) (Nat.le_refl _))
  intro m hm
  exact hle (mem_map.1 hm)

/-! ### The boundaries of a log -/

/-- No boundary after `q` comes before `n`, if the log has the frames after `q` still. -/
def Near (history : List (Frame α)) (logStart q n : ℕ) : Prop :=
  q < logStart ∨ ∀ t ∈ commitsOf history, q < t → n ≤ t

theorem mem_commitsOf_or (hlog : Numbered (history ++ more))
    (ht : t ∈ commitsOf (history ++ more)) : t ∈ commitsOf history ∨ history.length < t := by
  rcases (mem_commitsOf hlog).1 ht with rfl | ⟨i, frame, hi, hsize, rfl⟩
  · exact .inl (mem_cons_self ..)
  rcases Nat.lt_or_ge i history.length with hlt | hge
  · refine .inl ((mem_commitsOf fun j frame' hj => ?_).2 (.inr ⟨i, frame, ?_, hsize, rfl⟩))
    · have hlt := (List.getElem?_eq_some_iff.1 hj).1
      exact hlog j frame' (by rw [getElem?_append_left hlt, hj])
    · rw [← hi, getElem?_append_left hlt]
  · exact .inr (by omega)

theorem Near.append (h : Near history logStart q n)
    (hlog : Numbered (history ++ more)) (hn : n ≤ history.length + 1) :
    Near (history ++ more) logStart q n := by
  refine h.imp id fun h t ht hlt => ?_
  rcases mem_commitsOf_or hlog ht with ht | ht
  · exact h t ht hlt
  · omega

theorem Near.compact (h : Near history logStart q n) (hle : logStart ≤ logStart') :
    Near history logStart' q n :=
  h.imp (fun h => by omega) id

theorem Near.mono (h : Near history logStart q t) (hle : n ≤ t) : Near history logStart q n :=
  h.imp id fun h t' ht' hlt => Nat.le_trans hle (h t' ht' hlt)

/-! ### Transactions -/

/-- The frames of one transaction, which take a database from the boundary `q` of the log to `t`. -/
structure Txn (history : List (Frame α)) (logStart q : ℕ) (frames : List (Frame α)) (t : ℕ) :
    Prop where
  ordered : Ordered frames
  greatest : Greatest frames (t - 1)
  lt : q < t
  boundary : t ∈ commitsOf history
  pages : ∀ db, writeFrames db frames = writeFrames db (segment history q t)
  ends : ∃ init last, frames = init ++ [last] ∧ (∀ frame ∈ init, frame.sizeAfter = 0) ∧
    last.sizeAfter ≠ 0
  near : Near history logStart q t

namespace Txn

theorem ne_nil (h : Txn history logStart q frames t) : frames ≠ [] := by
  obtain ⟨init, last, rfl, -, -⟩ := h.ends
  simp

theorem frameNo_lt (h : Txn history logStart q frames t)
    (hframe : frame ∈ frames) : frame.frameNo < t := by
  have hle : frame.frameNo ≤ t - 1 := h.greatest.2 ⟨frame, hframe, rfl⟩
  have := h.lt
  omega

theorem rest_eq_nil_iff {since rest : List (Frame α)}
    (h : Txn history logStart q (since ++ frame :: rest) t) :
    rest = [] ↔ frame.sizeAfter ≠ 0 := by
  obtain ⟨init, last, heq, hinit, hlast⟩ := h.ends
  constructor
  · rintro rfl
    obtain ⟨-, rfl⟩ := append_inj' heq rfl |>.imp id singleton_inj.1
    exact hlast
  · intro hsize
    by_contra hne
    refine hsize (hinit frame ?_)
    obtain ⟨init', last', rfl⟩ := (eq_nil_or_concat' rest).resolve_left hne
    have heq : (since ++ frame :: init') ++ [last'] = init ++ [last] := by
      rw [← heq, append_assoc, cons_append]
    rw [← (append_inj' heq rfl).1]
    exact mem_append_right _ (mem_cons_self ..)

variable (h : Txn history logStart q frames t)
include h

theorem append (hlog : Committed history)
    (hmore : Numbered (history ++ more)) :
    Txn (history ++ more) logStart q frames t where
  __ := h
  boundary := mem_commitsOf_append h.boundary
  pages := by
    intro db
    rw [segment_append_of_le (hlog.commits_le h.boundary)]
    exact h.pages db
  near := h.near.append hmore (Nat.le_succ_of_le (hlog.commits_le h.boundary))

theorem compact
    (hle : logStart ≤ logStart') : Txn history logStart' q frames t :=
  { h with near := h.near.compact hle }

/-- **A transaction can be applied to a database that has a part of it.** -/
theorem apply {a : ℕ} (hq : q ≤ a) (ha : a ≤ t)
    (hlen : a ≤ history.length) (db : Pages α) :
    writeFrames (writeFrames db (history.take a)) frames = writeFrames db (history.take t) := by
  have hhave : history.take a = history.take q ++ segment history q a :=
    (take_append_segment hq).symm
  have hwant : history.take t =
      history.take q ++ (segment history q a ++ segment history a t) := by
    rw [segment_append hq ha hlen, take_append_segment (Nat.le_of_lt h.lt)]
  rw [h.pages, ← segment_append hq ha hlen, hhave, hwant, writeFrames, writeFrames,
    Overwrite.write_append _ (history.take q), Overwrite.write_again, ← Overwrite.write_append]

end Txn

/-! ### Sequences of transactions -/

/-- Whole transactions, from the boundary `q` of the log to `e`. -/
inductive Plan (history : List (Frame α)) (logStart : ℕ) : ℕ → List (Frame α) → ℕ → Prop
  | nil (q : ℕ) : Plan history logStart q [] q
  | cons {q t e : ℕ} {frames rest : List (Frame α)} :
      Txn history logStart q frames t → Plan history logStart t rest e →
      Plan history logStart q (frames ++ rest) e

namespace Plan

variable {e : ℕ}

theorem append (h : Plan history logStart q frames e) (hlog : Committed history)
    (hmore : Numbered (history ++ more)) :
    Plan (history ++ more) logStart q frames e := by
  induction h with
  | nil q => exact .nil q
  | cons htxn _ ih => exact .cons (htxn.append hlog hmore) ih

theorem compact (h : Plan history logStart q frames e)
    (hle : logStart ≤ logStart') : Plan history logStart' q frames e := by
  induction h with
  | nil q => exact .nil q
  | cons htxn _ ih => exact .cons (htxn.compact hle) ih

end Plan

theorem segment_ascending (hlog : Numbered history) (q t : ℕ) :
    (segment history q t).Pairwise (·.frameNo < ·.frameNo) :=
  pairwise_reverse.1 (segment_descending hlog q t)

theorem sizeAfter_ne_zero (hlog : Numbered history) (ht : t ∈ commitsOf history)
    {last : Frame α} (hmem : last ∈ history) (hno : last.frameNo + 1 = t) :
    last.sizeAfter ≠ 0 := by
  obtain ⟨j, hj⟩ := mem_iff_getElem?.1 hmem
  have hjNo := hlog j last hj
  rcases (mem_commitsOf hlog).1 ht with rfl | ⟨i, frame, hi, hsize, rfl⟩
  · omega
  · obtain rfl : j = i := by omega
    obtain rfl := Option.some.inj (hj.symm.trans hi)
    exact hsize

variable (hlog : Committed history)
include hlog

theorem txn_segment (hlt : q < t) (ht : t ∈ commitsOf history)
    (hnext : ∀ t' ∈ commitsOf history, q < t' → t ≤ t') (logStart : ℕ) :
    Txn history logStart q (segment history q t) t := by
  have hle := hlog.commits_le ht
  obtain ⟨-, last, -, -, hlast, hlastNo⟩ := segment_ends hlog.numbered hlt hle
  obtain ⟨init, hsegment⟩ := getLast?_eq_some_iff.1 hlast
  have hmem : last ∈ segment history q t := mem_of_getLast? hlast
  have hasc := segment_ascending hlog.numbered q t
  refine ⟨.inl (hasc.imp Nat.le_of_lt), ⟨⟨last, hmem, by omega⟩, ?_⟩, hlt, ht, fun _ => rfl,
    ⟨init, last, hsegment, ?_, ?_⟩, .inr hnext⟩
  · rintro m ⟨frame, hframe, rfl⟩
    have := (hlog.numbered.of_mem_segment hframe).2
    omega
  · -- a frame with a size would end a transaction before `t`
    intro frame hframe
    by_contra hsize
    have hin : frame ∈ segment history q t := by
      rw [hsegment]
      exact mem_append_left _ hframe
    have hbounds := hlog.numbered.of_mem_segment hin
    have hboundary : frame.frameNo + 1 ∈ commitsOf history :=
      mem_cons_of_mem _ (mem_map.2 ⟨frame, mem_filter.2
        ⟨mem_of_mem_take (mem_of_mem_drop hin), decide_eq_true hsize⟩, rfl⟩)
    have hlater := hnext _ hboundary (by omega)
    rw [hsegment] at hasc
    have hbefore := (pairwise_append.1 hasc).2.2 frame hframe last (mem_cons_self ..)
    omega
  · exact sizeAfter_ne_zero hlog.numbered ht (mem_of_mem_take (mem_of_mem_drop hmem))
      hlastNo

/-- **The frames of the log between two boundaries.** -/
theorem plan_segment (logStart : ℕ) {e : ℕ}
    (he : e ∈ commitsOf history) (hle : q ≤ e) :
    Plan history logStart q (segment history q e) e := by
  -- induction on how far the end is
  induction hd : e - q using Nat.strong_induction_on generalizing q with
  | _ d ih =>
    rcases Nat.eq_or_lt_of_le hle with rfl | hlt
    · rw [segment_eq_nil (Nat.le_refl q)]
      exact .nil q
    · have hex : ∃ t, t ∈ commitsOf history ∧ q < t := ⟨e, he, hlt⟩
      obtain ⟨ht, hqt⟩ := Nat.find_spec hex
      have hnext : ∀ t' ∈ commitsOf history, q < t' → Nat.find hex ≤ t' :=
        fun t' ht' hlt' => Nat.find_min' hex ⟨ht', hlt'⟩
      have hte := hnext e he hlt
      rw [← segment_append (Nat.le_of_lt hqt) hte (hlog.commits_le ht)]
      exact .cons (txn_segment hlog hqt ht hnext logStart) (ih (e - Nat.find hex) (by omega) hte rfl)

/-- **The stream of a snapshot.** -/
theorem txn_snapshot {s : SnapshotFile α} (hmade : Made history s)
    (hstart : s.startFrameNo ≤ q) (hend : q ≤ s.endFrameNo) (hlogStart : s.endFrameNo < logStart) :
    ∃ first frames, makeSnapshotStream s q = (first :: frames).map .ok ∧
      first.frameNo = s.endFrameNo ∧
      Txn history logStart q (first :: frames) (s.endFrameNo + 1) := by
  obtain ⟨init, last, hstream, hone, hhead, hpages⟩ := stream_spec hlog hmade hstart hend
  obtain ⟨first, frames, hcons⟩ : ∃ first frames, init ++ [last] = first :: frames :=
    exists_cons_of_ne_nil (by simp)
  have hgreatest := hone.greatest hhead
  have hordered := hone.descending
  have hfirst := hhead first (by rw [hcons]; rfl)
  rw [hcons] at hstream hgreatest hpages hordered
  exact ⟨first, frames, hstream, hfirst, .inr (hordered.imp Nat.le_of_lt), hgreatest,
    by omega, (hmade.holds hlog).whole, hpages, ⟨init, last, hcons.symm, hone.init, hone.last⟩,
    .inl (by omega)⟩

omit hlog

/-! ### A stream that is being injected -/

/-- The frames of a transaction that were injected, and those that are to come, with whole
transactions after them.  The first transaction reaches what is applied already, and `biggest`. -/
def Reaches (history : List (Frame α)) (logStart q applied biggest : ℕ)
    (since frames : List (Frame α)) (e : ℕ) : Prop :=
  since = [] ∧ frames = [] ∧ e = q ∨
    ∃ txn more t, txn ≠ [] ∧ frames = txn ++ more ∧ Txn history logStart q (since ++ txn) t ∧
      applied ≤ t ∧ biggest < t ∧ Plan history logStart t more e

variable {applied biggest e : ℕ} {since : List (Frame α)}

theorem Reaches.append (h : Reaches history logStart q applied biggest since frames e)
    (hlog : Committed history) (hmore : Numbered (history ++ more)) :
    Reaches (history ++ more) logStart q applied biggest since frames e := by
  rcases h with h | ⟨txn, rest, t, hne, hframes, htxn, ha, hb, hplan⟩
  · exact .inl h
  · exact .inr ⟨txn, rest, t, hne, hframes, htxn.append hlog hmore, ha, hb,
      hplan.append hlog hmore⟩

theorem Reaches.compact (h : Reaches history logStart q applied biggest since frames e)
    (hle : logStart ≤ logStart') :
    Reaches history logStart' q applied biggest since frames e := by
  rcases h with h | ⟨txn, rest, t, hne, hframes, htxn, ha, hb, hplan⟩
  · exact .inl h
  · exact .inr ⟨txn, rest, t, hne, hframes, htxn.compact hle, ha, hb, hplan.compact hle⟩

theorem Plan.reaches (h : Plan history logStart q frames e)
    (hreach : ∀ t ∈ commitsOf history, q < t → applied ≤ t ∧ biggest < t) :
    Reaches history logStart q applied biggest [] frames e := by
  cases h with
  | nil => exact .inl ⟨rfl, rfl, rfl⟩
  | cons htxn hplan =>
    obtain ⟨ha, hb⟩ := hreach _ htxn.boundary htxn.lt
    exact .inr ⟨_, _, _, htxn.ne_nil, rfl, htxn, ha, hb, hplan⟩

end SqlAnywhere.Replication.Replicator
