import Mathlib.Logic.Basic

/-!
# Runs of a system that takes one step at a time

A system is a partial step function: `step s e` is the state after `e`, or `none` where `e` is not
possible.  `exec step s es` is the state after the steps `es`, and `Along step ok s es` says that
each of them meets the condition `ok` in the state it is taken in.

* `exec_invariant` — what every step that meets the condition keeps holds after such a run
* `along_iff` — conditions that agree under an invariant are met by the same runs
* `decidableAlong` — the steps of a given run can be checked by evaluation
-/

namespace Run

variable {σ ε : Type*} {step : σ → ε → Option σ} {ok : σ → ε → Prop} {s s' : σ} {e : ε}
  {es es' : List ε} {I : σ → Prop} {ok' : σ → ε → Prop}

/-- The state after the steps `es`. -/
def exec (step : σ → ε → Option σ) : σ → List ε → Option σ
  | s, [] => some s
  | s, e :: es => (step s e).bind (fun s' => exec step s' es)

/-- Every step of `es` meets the condition `ok` where it is taken. -/
def Along (step : σ → ε → Option σ) (ok : σ → ε → Prop) : σ → List ε → Prop
  | _, [] => True
  | s, e :: es => ok s e ∧ ∀ s', step s e = some s' → Along step ok s' es

theorem exec_cons_iff :
    exec step s (e :: es) = some s' ↔ ∃ s₁, step s e = some s₁ ∧ exec step s₁ es = some s' :=
  Option.bind_eq_some_iff

theorem exec_trans {s'' : σ} (h : exec step s es = some s') (h' : exec step s' es' = some s'') :
    exec step s (es ++ es') = some s'' := by
  induction es generalizing s with
  | nil =>
    cases h
    exact h'
  | cons e es ih =>
    obtain ⟨s₁, hstep, hrest⟩ := exec_cons_iff.1 h
    exact exec_cons_iff.2 ⟨s₁, hstep, ih hrest⟩

/-- **Invariants**: what every step that meets the condition keeps holds after every run whose
steps meet it. -/
theorem exec_invariant (hstep : ∀ s e s', I s → ok s e → step s e = some s' → I s') (h₀ : I s)
    (hok : Along step ok s es) (hrun : exec step s es = some s') : I s' := by
  induction es generalizing s with
  | nil =>
    cases hrun
    exact h₀
  | cons e es ih =>
    obtain ⟨s₁, h₁, h₂⟩ := exec_cons_iff.1 hrun
    exact ih (hstep s e s₁ h₀ hok.1 h₁) (hok.2 s₁ h₁) h₂

theorem exec_keeps (hstep : ∀ s e s', I s → step s e = some s' → I s') (h₀ : I s)
    (hrun : exec step s es = some s') : I s' := by
  induction es generalizing s with
  | nil =>
    cases hrun
    exact h₀
  | cons e es ih =>
    obtain ⟨s₁, h₁, h₂⟩ := exec_cons_iff.1 hrun
    exact ih (hstep s e s₁ h₀ h₁) h₂

/-- Two conditions that agree where an invariant holds, which steps that meet them keep, are met by
the same runs. -/
theorem along_iff (hiff : ∀ s e, I s → (ok s e ↔ ok' s e))
    (hstep : ∀ s e s', I s → ok s e → step s e = some s' → I s') (h₀ : I s) :
    Along step ok s es ↔ Along step ok' s es := by
  induction es generalizing s with
  | nil => exact Iff.rfl
  | cons e es ih =>
    constructor
    · intro h
      exact ⟨(hiff s e h₀).1 h.1, fun s' hs' => (ih (hstep s e s' h₀ h.1 hs')).1 (h.2 s' hs')⟩
    · intro h
      have hok := (hiff s e h₀).2 h.1
      exact ⟨hok, fun s' hs' => (ih (hstep s e s' h₀ hok hs')).2 (h.2 s' hs')⟩

/-- A condition that follows from another where an invariant holds. -/
theorem along_imp (himp : ∀ s e, I s → ok s e → ok' s e)
    (hstep : ∀ s e s', I s → ok s e → step s e = some s' → I s') (h₀ : I s)
    (hok : Along step ok s es) : Along step ok' s es := by
  induction es generalizing s with
  | nil => trivial
  | cons e es ih =>
    exact ⟨himp s e h₀ hok.1, fun s' hs' => ih (hstep s e s' h₀ hok.1 hs') (hok.2 s' hs')⟩

theorem along_and (hok : Along step ok s es) (hok' : Along step ok' s es) :
    Along step (fun s e => ok s e ∧ ok' s e) s es := by
  induction es generalizing s with
  | nil => trivial
  | cons e es ih =>
    exact ⟨⟨hok.1, hok'.1⟩, fun s' hs' => ih (hok.2 s' hs') (hok'.2 s' hs')⟩

theorem along_mono (himp : ∀ s e, ok s e → ok' s e) (hok : Along step ok s es) :
    Along step ok' s es :=
  along_imp (I := fun _ => True) (fun s e _ => himp s e) (fun _ _ _ _ _ _ => trivial) trivial hok

instance decidableAlong [∀ s e, Decidable (ok s e)] : ∀ s es, Decidable (Along step ok s es)
  | _, [] => .isTrue trivial
  | s, e :: es =>
    have := fun s' => decidableAlong s' es
    inferInstanceAs (Decidable (ok s e ∧ ∀ s', step s e = some s' → Along step ok s' es))

end Run
