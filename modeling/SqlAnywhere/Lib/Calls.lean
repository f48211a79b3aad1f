import Mathlib.Data.Nat.Notation

/-!
# Programs that call out

A program of type `Calls ε α` asks the outside for one thing after another (memory, a handle, a
block of a file) and ends with an `α`.  Each call is answered by `none`, when it did its work, or by
the `ε` it failed with, and what the program does next may depend on the answer.

* `run`: the program against an outside that answers the `i`-th call with `env i`;
* `clean`: the program when every call does its work;
* `run_eq_clean`: a run none of whose calls failed ends as the clean one does;
* `Strict`: every failed call makes the result bad, so that `Strict.iff`: a good result is a clean
  one;
* `Ends`: what holds of the result whatever the answers are, with one rule for each way a program
  is built.
-/

/-- A program that makes calls, each answered by `none` or by the failure it met. -/
inductive Calls (ε α : Type) : Type
  | done (a : α)
  | call (k : Option ε → Calls ε α)

namespace Calls

variable {ε α β : Type} {p : Calls ε α} {f : Option ε → Calls ε α}

/-- Make one call and return its answer. -/
def ask : Calls ε (Option ε) := call done

/-- One program after another. -/
def bind : Calls ε α → (α → Calls ε β) → Calls ε β
  | done a, f => f a
  | call k, f => call fun r => (k r).bind f

instance : Monad (Calls ε) where
  pure := done
  bind := bind

/-- The program against an outside that answers the `i`-th call with `env i`, from the `n`-th call
on: its result and the number of the call that would come next. -/
def run (env : ℕ → Option ε) : Calls ε α → ℕ → α × ℕ
  | done a, n => (a, n)
  | call k, n => (k (env n)).run env (n + 1)

/-- The result when every call does its work. -/
def clean : Calls ε α → α
  | done a => a
  | call k => (k none).clean

/-- Whatever the answers, the result satisfies `Q`. -/
def Ends (Q : α → Prop) : Calls ε α → Prop
  | done a => Q a
  | call k => ∀ r, (k r).Ends Q

/-- Once a call has failed, the result is no longer `Q`. -/
def Strict (Q : α → Prop) : Calls ε α → Prop
  | done _ => True
  | call k => (k none).Strict Q ∧ ∀ e, (k (some e)).Ends fun a => ¬ Q a

/-! ### Runs -/

section Run

variable (env : ℕ → Option ε) (n : ℕ)

@[simp] theorem run_pure (a : α) : (pure a : Calls ε α).run env n = (a, n) := rfl

@[simp] theorem run_done (a : α) : (done a : Calls ε α).run env n = (a, n) := rfl

@[simp] theorem run_ask : (ask : Calls ε (Option ε)).run env n = (env n, n + 1) := rfl

theorem run_bind (f : α → Calls ε β) :
    (p >>= f).run env n = (f (p.run env n).1).run env (p.run env n).2 := by
  induction p generalizing n with
  | done a => rfl
  | call k ih => exact ih (env n) (n + 1)

theorem le_run : n ≤ (p.run env n).2 := by
  induction p generalizing n with
  | done a => exact Nat.le_refl n
  | call k ih => exact Nat.le_trans (Nat.le_succ n) (ih (env n) (n + 1))

end Run

/-! ### Clean runs -/

@[simp] theorem clean_pure (a : α) : (pure a : Calls ε α).clean = a := rfl

@[simp] theorem clean_ask : (ask : Calls ε (Option ε)).clean = none := rfl

@[simp] theorem clean_bind (f : α → Calls ε β) :
    (p >>= f).clean = (f p.clean).clean := by
  induction p with
  | done a => rfl
  | call k ih => exact ih none

/-- **A run none of whose calls failed ends as the clean one does.** -/
theorem run_eq_clean {env : ℕ → Option ε} {n : ℕ}
    (h : ∀ i, n ≤ i → i < (p.run env n).2 → env i = none) : (p.run env n).1 = p.clean := by
  induction p generalizing n with
  | done a => rfl
  | call k ih =>
    have hn : env n = none := h n (Nat.le_refl n) (le_run env (n + 1))
    show ((k (env n)).run env (n + 1)).1 = (k none).clean
    rw [hn]
    refine ih none fun i hi hlt => h i (by omega) ?_
    show i < ((k (env n)).run env (n + 1)).2
    rw [hn]
    exact hlt

/-! ### What every run ends with -/

section Ends

variable {Q : α → Prop} {R : β → Prop}

theorem Ends.run (h : p.Ends Q) (env : ℕ → Option ε) (n : ℕ) :
    Q (p.run env n).1 := by
  induction p generalizing n with
  | done a => exact h
  | call k ih => exact ih (env n) (h (env n)) (n + 1)

theorem Ends.clean (h : p.Ends Q) : Q p.clean := by
  induction p with
  | done a => exact h
  | call k ih => exact ih none (h none)

theorem Ends.pure {a : α} (h : Q a) : (Pure.pure a : Calls ε α).Ends Q := h

theorem Ends.ask (h : ∀ r, (f r).Ends Q) : (Calls.ask >>= f).Ends Q := h

theorem Ends.bind {f : α → Calls ε β} (h : p.Ends Q)
    (hf : ∀ a, Q a → (f a).Ends R) : (p >>= f).Ends R := by
  induction p with
  | done a => exact hf a h
  | call k ih => exact fun r => ih r (h r)

theorem Ends.of_true : p.Ends fun _ => True := by
  induction p with
  | done a => trivial
  | call k ih => exact ih

theorem Ends.mono {Q' : α → Prop} (h : p.Ends Q) (hQ : ∀ a, Q a → Q' a) :
    p.Ends Q' := by
  induction p with
  | done a => exact hQ a h
  | call k ih => exact fun r => ih r (h r)

end Ends

/-! ### Programs that report every failed call -/

section Strict

variable {Q : α → Prop} {R : β → Prop}

theorem Strict.pure (a : α) : (Pure.pure a : Calls ε α).Strict Q := trivial

theorem Strict.ask (hnone : (f none).Strict Q)
    (hsome : ∀ e, (f (some e)).Ends fun a => ¬ Q a) : (Calls.ask >>= f).Strict Q :=
  ⟨hnone, hsome⟩

theorem Strict.bind {f : α → Calls ε β} (h : p.Strict Q)
    (hf : ∀ a, (f a).Strict R) (hbad : ∀ a, ¬ Q a → (f a).Ends fun b => ¬ R b) :
    (p >>= f).Strict R := by
  induction p with
  | done a => exact hf a
  | call k ih => exact ⟨ih none h.1, fun e => (h.2 e).bind hbad⟩

/-- **The result of a strict program is good exactly when no call failed** and the clean result is
good. -/
theorem Strict.iff (h : p.Strict Q) (env : ℕ → Option ε) (n : ℕ) :
    Q (p.run env n).1 ↔ (∀ i, n ≤ i → i < (p.run env n).2 → env i = none) ∧ Q p.clean := by
  constructor
  · intro hQ
    suffices hclean : ∀ i, n ≤ i → i < (p.run env n).2 → env i = none from
      ⟨hclean, run_eq_clean hclean ▸ hQ⟩
    induction p generalizing n with
    | done a => exact fun i hle hlt => absurd hlt (Nat.not_lt.2 hle)
    | call k ih =>
      cases hn : env n with
      | some e =>
        have hQ : Q ((k (env n)).run env (n + 1)).1 := hQ
        rw [hn] at hQ
        exact absurd hQ ((h.2 e).run env (n + 1))
      | none =>
        intro i hle hlt
        have hQ : Q ((k (env n)).run env (n + 1)).1 := hQ
        have hlt : i < ((k (env n)).run env (n + 1)).2 := hlt
        rw [hn] at hQ hlt
        rcases Nat.eq_or_lt_of_le hle with rfl | hle
        · exact hn
        · exact ih none h.1 (n + 1) hQ i hle hlt
  · rintro ⟨hclean, hQ⟩
    rw [run_eq_clean hclean]
    exact hQ

end Strict

end Calls
