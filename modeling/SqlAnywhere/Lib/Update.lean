import Mathlib.Logic.Function.Basic

/-!
# Partial maps that are changed at one key

* `of_update_eq_some` — where a value of the changed map comes from
* `update_eq_none`, `update_ne_none` — which keys have no value after a change
-/

variable {κ α : Type*} [DecidableEq κ] {f : κ → Option α} {k m : κ}

theorem of_update_eq_some {v : Option α} {a : α} (h : Function.update f k v m = some a) :
    m = k ∧ v = some a ∨ m ≠ k ∧ f m = some a := by
  by_cases hm : m = k
  · subst hm
    rw [Function.update_self] at h
    exact Or.inl ⟨rfl, h⟩
  · rw [Function.update_of_ne hm] at h
    exact Or.inr ⟨hm, h⟩

theorem update_eq_none (h : f m = none) : Function.update f k none m = none := by
  rw [Function.update_apply, h, ite_self]

theorem update_ne_none {a : α} (h : f m ≠ none ∨ m = k) :
    Function.update f k (some a) m ≠ none := by
  by_cases hm : m = k
  · simp [hm]
  · rw [Function.update_of_ne hm]
    exact h.resolve_right hm
