import Mathlib.Data.List.Sort
import Mathlib.Order.Interval.Set.Defs

/-!
# The progress of uploads

Segments of the WAL are uploaded in parallel and are done in any order.  What is done beyond a gap waits.

* `published_subset` — no number is published before all frames up to it are done
-/

namespace SqlAnywhere.Bottomless

open List

structure CompletionProgress where
  baseline : ℕ
  /-- ordered by the first frame -/
  detachedRanges : List (ℕ × ℕ)
  /-- what was sent to the watchers last -/
  published : ℕ

namespace CompletionProgress

def new (baseline : ℕ) : CompletionProgress := ⟨baseline, [], baseline⟩

/-- The loop of `update`. -/
def advance (endFrame : ℕ) : List (ℕ × ℕ) → CompletionProgress
  | [] => ⟨endFrame, [], endFrame⟩
  | r :: ranges =>
    if r.1 = endFrame + 1 then advance r.2 ranges else ⟨endFrame, r :: ranges, endFrame⟩

def update (p : CompletionProgress) (r : ℕ × ℕ) : CompletionProgress :=
  if r.1 = p.baseline + 1 then advance r.2 p.detachedRanges
  else { p with
    detachedRanges := (p.detachedRanges.filter (·.1 ≠ r.1)).orderedInsert (·.1 ≤ ·.1) r }

/-- A segment that is done, or a reset; with the segments that are done since the last reset. -/
def step : List (ℕ × ℕ) × CompletionProgress → Option (ℕ × ℕ) → List (ℕ × ℕ) × CompletionProgress
  | (done, p), some r => (r :: done, p.update r)
  | _, none => ([], new 0)

def frames (done : List (ℕ × ℕ)) : Set ℕ := {k | ∃ r ∈ done, r.1 ≤ k ∧ k ≤ r.2}

structure Inv (done : List (ℕ × ℕ)) (p : CompletionProgress) : Prop where
  covered : Set.Ioc 0 p.baseline ⊆ frames done
  detached : p.detachedRanges ⊆ done
  sent : p.published = p.baseline

variable {done ranges : List (ℕ × ℕ)} {p : CompletionProgress} {n : ℕ} {r : ℕ × ℕ}

theorem inv_new : Inv [] (new 0) :=
  ⟨fun _ hk => absurd hk.1 (Nat.not_lt.2 hk.2), nil_subset _, rfl⟩

theorem covered_next (h : Set.Ioc 0 n ⊆ frames done) (hr : r ∈ done) (hnext : r.1 = n + 1) :
    Set.Ioc 0 r.2 ⊆ frames done := by
  intro k hk
  by_cases hkn : k ≤ n
  · exact h ⟨hk.1, hkn⟩
  · exact ⟨r, hr, by omega, hk.2⟩

theorem inv_advance (h : Set.Ioc 0 n ⊆ frames done) (hr : ranges ⊆ done) :
    Inv done (advance n ranges) := by
  induction ranges generalizing n with
  | nil => exact ⟨h, hr, rfl⟩
  | cons r ranges ih =>
    obtain ⟨hmem, hrest⟩ := cons_subset.1 hr
    rw [advance]
    split_ifs with hnext
    · exact ih (covered_next h hmem hnext) hrest
    · exact ⟨h, hr, rfl⟩

theorem Inv.update (h : Inv done p) (r : ℕ × ℕ) : Inv (r :: done) (p.update r) := by
  have hcov : Set.Ioc 0 p.baseline ⊆ frames (r :: done) := fun k hk =>
    (h.covered hk).imp fun q hq => hq.imp_left (mem_cons_of_mem r)
  unfold CompletionProgress.update
  split_ifs with hnext
  · exact inv_advance (covered_next hcov mem_cons_self hnext) (subset_cons_of_subset r h.detached)
  · refine ⟨hcov, fun q hq => ?_, h.sent⟩
    rcases (mem_orderedInsert _).1 hq with rfl | hq
    · exact mem_cons_self
    · exact mem_cons_of_mem r (h.detached (mem_of_mem_filter hq))

theorem inv_run (events : List (Option (ℕ × ℕ))) {s : List (ℕ × ℕ) × CompletionProgress}
    (h : Inv s.1 s.2) : Inv (events.foldl step s).1 (events.foldl step s).2 := by
  induction events generalizing s with
  | nil => exact h
  | cons e events ih =>
    cases e with
    | none => exact ih inv_new
    | some r => exact ih (h.update r)

/-- **No number is published before all frames up to it are done**, whatever the order of the segments,
and also if segments overlap or are done again. -/
theorem published_subset (events : List (Option (ℕ × ℕ))) :
    Set.Ioc 0 (events.foldl step ([], new 0)).2.published ⊆
      frames (events.foldl step ([], new 0)).1 := by
  have h := inv_run events (s := ([], new 0)) inv_new
  rw [h.sent]
  exact h.covered

end CompletionProgress
end SqlAnywhere.Bottomless
