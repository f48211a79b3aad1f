import SqlAnywhere.Server.ForkLog.Copies

/-!
# Logs that end with a transaction

* `commitsOf`, `Committed` — where the transactions of a log end, and that it ends with one
* `transaction`, `committed_append` — the frames that a commit adds to it
* `holds_append`, `swappedOut_append` — what was made of a log stays right as the log grows
-/

namespace SqlAnywhere.Server.ReplicationLog

open List
open ForkLog

variable {α : Type*} {n : ℕ} {history : List (Frame α)}

/-- Where a log can be cut: at its start, and after each frame that ends a transaction. -/
def commitsOf (history : List (Frame α)) : List ℕ :=
  0 :: (history.filter (·.sizeAfter ≠ 0)).map (·.frameNo + 1)

/-- A log that ends with a transaction. -/
structure Committed (history : List (Frame α)) : Prop where
  numbered : Numbered history
  last : history.length ∈ commitsOf history

/-- A source with this log, all of it swapped out. -/
def sourceOf (history : List (Frame α)) : Source α :=
  ⟨.new history.length, [], [], history, commitsOf history⟩

theorem mem_commitsOf (h : Numbered history) :
    n ∈ commitsOf history ↔
      n = 0 ∨ ∃ (i : ℕ) (frame : Frame α), history[i]? = some frame ∧ frame.sizeAfter ≠ 0 ∧
        n = i + 1 := by
  simp only [commitsOf, mem_cons, mem_map, mem_filter, decide_eq_true_eq]
  refine or_congr_right ?_
  constructor
  · rintro ⟨frame, ⟨hframe, hsize⟩, rfl⟩
    obtain ⟨i, hi⟩ := mem_iff_getElem?.1 hframe
    exact ⟨i, frame, hi, hsize, by rw [h i frame hi]⟩
  · rintro ⟨i, frame, hi, hsize, rfl⟩
    exact ⟨frame, ⟨mem_of_getElem? hi, hsize⟩, by rw [h i frame hi]⟩

theorem Committed.commits_le (h : Committed history)
    (hn : n ∈ commitsOf history) : n ≤ history.length := by
  rcases (mem_commitsOf h.numbered).1 hn with rfl | ⟨i, frame, hi, -, rfl⟩
  · exact Nat.zero_le _
  · exact (List.getElem?_eq_some_iff.1 hi).1

theorem Committed.sourceInv (h : Committed history) :
    SourceInv (sourceOf history) where
  __ := h
  start_le := Nat.le_refl _
  frames := drop_length.symm
  uncommitted := by
    intro i frame hi
    cases hi
  toCompact := nofun
  snapshots := nofun
  commits_le := fun _ => h.commits_le
  zero := mem_cons_self ..

/-! ### Commits -/

/-- The frames of a transaction, with the size of the database on the last one. -/
def transaction (frameNo : ℕ) (pages : List (ℕ × α)) (last : ℕ × α) (sizeAfter : ℕ) :
    List (Frame α) :=
  match pages with
  | [] => [⟨frameNo, last.1, sizeAfter, last.2⟩]
  | page :: pages =>
    ⟨frameNo, page.1, 0, page.2⟩ :: transaction (frameNo + 1) pages last sizeAfter

theorem transaction_frameNo {n sizeAfter : ℕ} {pages : List (ℕ × α)} {last : ℕ × α} {i : ℕ}
    {frame : Frame α} (h : (transaction n pages last sizeAfter)[i]? = some frame) :
    frame.frameNo = n + i := by
  induction pages generalizing n i with
  | nil =>
    cases i with
    | zero =>
      cases h
      rfl
    | succ i => cases h
  | cons page pages ih =>
    cases i with
    | zero =>
      cases h
      rfl
    | succ i =>
      rw [ih h]
      omega

theorem transaction_last (n sizeAfter : ℕ) (pages : List (ℕ × α)) (last : ℕ × α) :
    ∃ frame, (transaction n pages last sizeAfter).getLast? = some frame ∧
      frame.sizeAfter = sizeAfter := by
  induction pages generalizing n with
  | nil => exact ⟨_, rfl, rfl⟩
  | cons page pages ih =>
    obtain ⟨frame, hframe, hsize⟩ := ih (n + 1)
    refine ⟨frame, ?_, hsize⟩
    rw [transaction, getLast?_cons, hframe]
    rfl

theorem mem_commitsOf_append {history more : List (Frame α)}
    (h : n ∈ commitsOf history) : n ∈ commitsOf (history ++ more) := by
  rw [commitsOf, filter_append, map_append, ← cons_append]
  exact mem_append_left _ h

theorem committed_append (h : Committed history)
    (pages : List (ℕ × α)) (last : ℕ × α) {sizeAfter : ℕ} (hsize : sizeAfter ≠ 0) :
    Committed (history ++ transaction history.length pages last sizeAfter) := by
  have hnumbered :
      Numbered (history ++ transaction history.length pages last sizeAfter) := by
    intro i frame hi
    rw [getElem?_append] at hi
    split at hi
    · exact h.numbered i frame hi
    · rw [transaction_frameNo hi]
      omega
  obtain ⟨frame, hframe, hframeSize⟩ := transaction_last history.length sizeAfter pages last
  have hlast : (history ++ transaction history.length pages last sizeAfter).getLast? =
      some frame := by
    rw [getLast?_append, hframe]
    rfl
  rw [getLast?_eq_getElem?] at hlast
  refine ⟨hnumbered, (mem_commitsOf hnumbered).2 (.inr ⟨_, frame, hlast, ?_, ?_⟩)⟩
  · rw [hframeSize]
    exact hsize
  · have := (List.getElem?_eq_some_iff.1 hlast).1
    omega

theorem holds_append (hlog : Committed history) {s : Snapshot α}
    (h : Holds history (commitsOf history) s) (more : List (Frame α)) :
    Holds (history ++ more) (commitsOf (history ++ more)) s := by
  refine ⟨h.le, mem_commitsOf_append h.whole, ?_⟩
  rw [segment_append_of_le (hlog.commits_le h.whole)]
  exact h.frames

theorem swappedOut_append (hlog : Committed history) {log : LogFile α}
    (h : SwappedOut history (commitsOf history) log) (more : List (Frame α)) :
    SwappedOut (history ++ more) (commitsOf (history ++ more)) log := by
  refine ⟨h.ne, mem_commitsOf_append h.whole, ?_⟩
  rw [segment_append_of_le (hlog.commits_le h.whole)]
  exact h.frames

end SqlAnywhere.Server.ReplicationLog
