import Mathlib.Data.Option.Basic

/-!
# Three-way merge of one record

A record is a function from field names to values, and `none` its absence.  Given the common
`base` and two later versions, `merge` is the version both sides would agree on: a side that
changed nothing gives way, two updates that write no field differently are combined field by
field, and what is left is a conflict, settled for one of the sides.
-/

namespace ThreeWay

variable {ι β : Type*} {b r m : Option (ι → β)} {b' r' m' : ι → β} {take : Bool}

/-- No field is written by both sides with different values. -/
def Compatible (b r m : ι → β) : Prop := ∀ i, r i = b i ∨ m i = b i ∨ r i = m i

/-- Both updates at once: each field as the side that wrote it has it. -/
def combine [DecidableEq β] (b r m : ι → β) : ι → β := fun i => if r i = b i then m i else r i

/-- Both sides changed the record, differently, and not by two updates that can be combined. -/
def Conflict (b r m : Option (ι → β)) : Prop :=
  r ≠ b ∧ m ≠ b ∧ r ≠ m ∧
    ∀ b' r' m', b = some b' → r = some r' → m = some m' → ¬ Compatible b' r' m'

open Classical in
/-- The three-way merge of base `b`, branch `r` and main `m`.  A conflict is settled for the branch
if `take` holds and for main otherwise. -/
noncomputable def merge [DecidableEq β] (take : Bool) (b r m : Option (ι → β)) :
    Option (ι → β) :=
  if r = b then m
  else if m = b then r
  else if r = m then m
  else
    match b, r, m with
    | some b', some r', some m' =>
        if Compatible b' r' m' then some (combine b' r' m')
        else if take then some r' else some m'
    | _, r, m => if take then r else m

variable (h : Conflict b r m)
include h

theorem Conflict.branch_ne : r ≠ b := h.1

theorem Conflict.main_ne : m ≠ b := h.2.1

theorem Conflict.ne : r ≠ m := h.2.2.1

omit h

theorem conflict_some_iff :
    Conflict (some b') (some r') (some m') ↔ ¬ Compatible b' r' m' := by
  refine ⟨fun h => h.2.2.2 _ _ _ rfl rfl rfl, fun h => ⟨?_, ?_, ?_, ?_⟩⟩
  · rintro ⟨⟩
    exact h fun i => Or.inl rfl
  · rintro ⟨⟩
    exact h fun i => Or.inr (Or.inl rfl)
  · rintro ⟨⟩
    exact h fun i => Or.inr (Or.inr rfl)
  · rintro _ _ _ ⟨⟩ ⟨⟩ ⟨⟩
    exact h

theorem not_conflict_self_right : ¬ Conflict b r r := fun h => h.ne rfl

/-- Without a conflict one of the sides gives way, or two updates are combined. -/
theorem cases_of_not_conflict (h : ¬ Conflict b r m) :
    r = b ∨ m = b ∨ r = m ∨
      ∃ b' r' m', b = some b' ∧ r = some r' ∧ m = some m' ∧ Compatible b' r' m' := by
  by_contra hne
  simp only [not_or, not_exists, not_and] at hne
  exact h hne

section Merge

variable [DecidableEq β]

@[simp] theorem combine_apply (i : ι) : combine b' r' m' i = if r' i = b' i then m' i else r' i :=
  rfl

@[simp] theorem merge_base_left : merge take b b m = m := by simp [merge]

@[simp] theorem merge_base_right : merge take b r b = r := by
  by_cases h : r = b <;> simp [merge, h]

@[simp] theorem merge_self : merge take b r r = r := by
  by_cases h : r = b <;> simp [merge, h]

theorem combine_of_eq_left : combine b' b' m' = m' := by funext i; simp

theorem combine_of_eq_right : combine b' r' b' = r' := by
  funext i
  by_cases h : r' i = b' i <;> simp [h]

theorem combine_of_eq : combine b' m' m' = m' := by funext i; simp

/-- Compatible updates are combined, also where one side wrote nothing. -/
theorem merge_of_compatible (h : Compatible b' r' m') :
    merge take (some b') (some r') (some m') = some (combine b' r' m') := by
  by_cases h₁ : r' = b'
  · subst h₁; rw [merge_base_left, combine_of_eq_left]
  by_cases h₂ : m' = b'
  · subst h₂; rw [merge_base_right, combine_of_eq_right]
  by_cases h₃ : r' = m'
  · subst h₃; rw [merge_self, combine_of_eq]
  simp [merge, h₁, h₂, h₃, h]

theorem merge_of_conflict (h : Conflict b r m) : merge take b r m = if take then r else m := by
  obtain ⟨h₁, h₂, h₃, h₄⟩ := h
  cases b with
  | none => simp [merge, h₁, h₂, h₃]
  | some b' =>
    cases r with
    | none => simp [merge, h₂, h₃]
    | some r' =>
      cases m with
      | none => simp [merge, h₁]
      | some m' =>
        have hc := h₄ b' r' m' rfl rfl rfl
        cases take <;> simp [merge, h₁, h₂, h₃, hc]

/-- Each field of a merged record is that of one of the sides. -/
theorem apply_of_merge {x : ι → β} (h : merge take b r m = some x) (i : ι) :
    (∃ r', r = some r' ∧ x i = r' i) ∨ ∃ m', m = some m' ∧ x i = m' i := by
  by_cases hc : Conflict b r m
  · rw [merge_of_conflict hc] at h
    cases take <;> grind
  · rcases cases_of_not_conflict hc with rfl | rfl | rfl | ⟨b', r', m', rfl, rfl, rfl, hcompat⟩
    · exact .inr ⟨x, by simpa using h, rfl⟩
    · exact .inl ⟨x, by simpa using h, rfl⟩
    · exact .inl ⟨x, by simpa using h, rfl⟩
    · obtain rfl := Option.some.inj ((merge_of_compatible hcompat).symm.trans h)
      by_cases hi : r' i = b' i <;> simp [hi]

theorem branch_ne_none (h : ¬ Conflict b r m) (hne : r ≠ b) (hm : merge take b r m ≠ none) :
    r ≠ none := by
  rcases cases_of_not_conflict h with h | h | h | ⟨b', r', m', -, h, -, -⟩
  · exact absurd h hne
  · rwa [h, merge_base_right] at hm
  · rwa [← h, merge_self] at hm
  · rw [h]
    simp

theorem compatible_combine_right : Compatible b' r' (combine b' r' m') := by
  intro i
  by_cases hi : r' i = b' i
  · exact Or.inl hi
  · simp [hi]

theorem combine_combine : combine b' r' (combine b' r' m') = combine b' r' m' := by
  funext i
  by_cases hi : r' i = b' i <;> simp [hi]

theorem not_conflict_merge (h : ¬ Conflict b r m) : ¬ Conflict b r (merge take b r m) := by
  rcases cases_of_not_conflict h with rfl | rfl | rfl | ⟨b', r', m', rfl, rfl, rfl, hc⟩
  · exact fun h => h.branch_ne rfl
  · rw [merge_base_right]; exact not_conflict_self_right
  · rw [merge_self]; exact not_conflict_self_right
  · rw [merge_of_compatible hc, conflict_some_iff, not_not]
    exact compatible_combine_right

theorem merge_merge (h : ¬ Conflict b r m) :
    merge take b r (merge take b r m) = merge take b r m := by
  rcases cases_of_not_conflict h with rfl | rfl | rfl | ⟨b', r', m', rfl, rfl, rfl, hc⟩
  · rw [merge_base_left]
  · rw [merge_base_right, merge_self]
  · rw [merge_self, merge_self]
  · rw [merge_of_compatible hc, merge_of_compatible compatible_combine_right, combine_combine]

end Merge

end ThreeWay
