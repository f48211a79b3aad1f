import Mathlib.Data.Int.Notation
import Mathlib.Data.List.Basic
import SqlAnywhere.Lib.Run

/-!
# Batch programs

A program is a list of steps, each a statement with an optional condition on what became of the
steps before it.  `CoreConnection::run` takes them in order on a virtual machine that keeps one
truth value for each step it has taken; another connection may force a rollback between any two of
them, after which the machine answers every remaining step with an error.

* `evalCond`, `Vm.step`, `turn` — the machine
* `Hrana.eval`, `Hrana.turn` — the same as the Hrana specification has it
* `conditions_iff` — when the two agree

The connection, its statements and the builder of the response are parameters.
-/

namespace SqlAnywhere

open List Option

namespace Server

variable {σ β Q E : Type}

/-- The condition of a step. -/
inductive Cond
  | ok (step : ℕ)
  | err (step : ℕ)
  | not (cond : Cond)
  | or (conds : List Cond)
  | and (conds : List Cond)
  | isAutocommit

structure Step (Q : Type) where
  cond : Option Cond
  query : Q

/-- The errors that the machine itself tells apart. -/
inductive Error (E : Type)
  | invalidBatchStep (step : ℕ)
  | txTimeout
  /-- The builder refused something, which ends the run. -/
  | builder
  | query (e : E)

/-- What a program runs on: a connection in a state `σ` and a response builder in a state `β`.  The
builder refuses with `none`. -/
structure Machine (σ β Q E : Type) where
  isAutocommit : σ → Bool
  rollback : σ → σ
  executeQuery : σ → β → Q → (σ × β) × Except (Error E) (ℕ × Option ℤ)
  beginStep : β → Option β
  stepError : β → Error E → Option β
  finishStep : β → ℕ → Option ℤ → Option β

mutual

/-- `eval_cond`: the error is that of a step which has no result. -/
def evalCond (results : List Bool) (isAutocommit : Bool) : Cond → Except ℕ Bool
  | .ok step => results[step]?.elim (.error step) .ok
  | .err step => results[step]?.elim (.error step) (fun res => .ok !res)
  | .not cond => (evalCond results isAutocommit cond).map Bool.not
  | .and conds => tryFold results isAutocommit Bool.and true conds
  | .or conds => tryFold results isAutocommit Bool.or false conds
  | .isAutocommit => .ok isAutocommit

/-- The `try_fold` over a list of conditions: all of them are evaluated, up to the first error. -/
def tryFold (results : List Bool) (isAutocommit : Bool) (op : Bool → Bool → Bool) (x : Bool) :
    List Cond → Except ℕ Bool
  | [] => .ok x
  | cond :: conds =>
    (evalCond results isAutocommit cond).bind
      (fun y => tryFold results isAutocommit op (op x y) conds)

end

/-- What became of a step: no part of the program, it is what the conditions are about. -/
inductive Status
  /-- Its condition was false. -/
  | skipped
  | succeeded
  | failed
  /-- Its condition could not be evaluated. -/
  | refused
  /-- A rollback had been forced. -/
  | timedOut
  deriving DecidableEq

/-- The step produced an error. -/
def Status.isError : Status → Bool
  | .failed | .refused | .timedOut => true
  | .skipped | .succeeded => false

/-- The virtual machine and the loop of `CoreConnection::run` around it. -/
structure Vm (σ β : Type) where
  results : List Bool
  builder : β
  currentStep : ℕ
  conn : σ
  /-- `forced_rollback` of the connection. -/
  forcedRollback : Bool
  hasTimeout : Bool
  /-- What became of the steps so far; nothing depends on it. -/
  past : List Status

/-- A run at its start.  A rollback may have been forced since the last one. -/
def Vm.new (builder : β) (conn : σ) (forcedRollback : Bool) : Vm σ β :=
  ⟨[], builder, 0, conn, forcedRollback, false, []⟩

/-- Whether a step is to be executed, by the way its condition is evaluated. -/
def enabled (eval : Cond → Except ℕ Bool) : Option Cond → Except ℕ Bool
  | some cond => eval cond
  | none => .ok true

/-- A step is done with the result `res`, and its status is noted. -/
def Vm.push (vm : Vm σ β) (conn : σ) (builder : β) (res : Bool) (status : Status) : Vm σ β :=
  { vm with
    results := vm.results ++ [res], builder := builder, currentStep := vm.currentStep + 1,
    conn := conn, past := vm.past ++ [status] }

/-- `Vm::step` and `Vm::try_step`: the current step, with its condition evaluated by `eval`.
`none` is an error that ends the run. -/
def Vm.tryStep (M : Machine σ β Q E) (eval : Cond → Except ℕ Bool) (step : Step Q) (vm : Vm σ β) :
    Option (Vm σ β) := do
  let builder ← M.beginStep vm.builder
  match enabled eval step.cond with
  | .error i =>
    let builder ← M.stepError builder (.invalidBatchStep i)
    let builder ← M.finishStep builder 0 none
    some (vm.push vm.conn builder false .refused)
  | .ok false =>
    let builder ← M.finishStep builder 0 none
    some (vm.push vm.conn builder false .skipped)
  | .ok true =>
    match M.executeQuery vm.conn builder step.query with
    | (_, .error .builder) => none
    | ((conn, builder), .error e) =>
      let builder ← M.stepError builder e
      let builder ← M.finishStep builder 0 none
      some (vm.push conn builder false .failed)
    | ((conn, builder), .ok (affectedRowCount, lastInsertRowid)) =>
      let builder ← M.finishStep builder affectedRowCount lastInsertRowid
      some (vm.push conn builder true .succeeded)

/-- The connection is locked for a turn of the loop: a forced rollback is noticed. -/
def Vm.lock (vm : Vm σ β) : Vm σ β :=
  { vm with hasTimeout := vm.hasTimeout || vm.forcedRollback, forcedRollback := false }

/-- A step after a timeout: it is answered with an error and `Vm::advance` passes over it. -/
def Vm.invalidate (M : Machine σ β Q E) (vm : Vm σ β) : Option (Vm σ β) := do
  let builder ← M.beginStep vm.builder
  let builder ← M.stepError builder .txTimeout
  let builder ← M.finishStep builder 0 none
  some { vm with
    currentStep := vm.currentStep + 1, builder := builder, past := vm.past ++ [.timedOut] }

/-- What happens during a run, in any order. -/
inductive Event
  /-- One turn of the loop. -/
  | turn
  /-- Another connection calls `force_rollback`. -/
  | forceRollback

def Vm.forceRollback (M : Machine σ β Q E) (vm : Vm σ β) : Vm σ β :=
  if vm.forcedRollback then vm
  else { vm with conn := M.rollback vm.conn, forcedRollback := true }

/-- One event of a run of `pgm`, where `eval` is how the machine evaluates a condition. -/
def turnWith (eval : Vm σ β → Cond → Except ℕ Bool) (M : Machine σ β Q E) (pgm : List (Step Q))
    (vm : Vm σ β) : Event → Option (Vm σ β)
  | .forceRollback => some (vm.forceRollback M)
  | .turn => do
    let step ← pgm[vm.currentStep]?
    if vm.lock.hasTimeout then vm.lock.invalidate M
    else vm.lock.tryStep M (eval vm.lock) step

/-- One event of a run of `CoreConnection::run`. -/
def turn (M : Machine σ β Q E) (pgm : List (Step Q)) : Vm σ β → Event → Option (Vm σ β) :=
  turnWith (fun vm => evalCond vm.results (M.isAutocommit vm.conn)) M pgm

/-! ### What the specification says -/

namespace Hrana

mutual

/-- The value of a condition, from what became of the steps before. -/
def eval (past : List Status) (isAutocommit : Bool) : Cond → Bool
  | .ok step => past[step]?.any (· = .succeeded)
  | .err step => past[step]?.any Status.isError
  | .not cond => !eval past isAutocommit cond
  | .and conds => all past isAutocommit conds
  | .or conds => any past isAutocommit conds
  | .isAutocommit => isAutocommit

def all (past : List Status) (isAutocommit : Bool) : List Cond → Bool
  | [] => true
  | cond :: conds => eval past isAutocommit cond && all past isAutocommit conds

def any (past : List Status) (isAutocommit : Bool) : List Cond → Bool
  | [] => false
  | cond :: conds => eval past isAutocommit cond || any past isAutocommit conds

end

/-- One event of a run that follows the specification. -/
def turn (M : Machine σ β Q E) (pgm : List (Step Q)) : Vm σ β → Event → Option (Vm σ β) :=
  turnWith (fun vm cond => .ok (eval vm.past (M.isAutocommit vm.conn) cond)) M pgm

end Hrana

/-- `d` is `c` or a condition inside it. -/
inductive Cond.Sub : Cond → Cond → Prop
  | refl (c : Cond) : Sub c c
  | not {c d : Cond} : Sub d c → Sub d (.not c)
  | or {c d : Cond} {conds : List Cond} : c ∈ conds → Sub d c → Sub d (.or conds)
  | and {c d : Cond} {conds : List Cond} : c ∈ conds → Sub d c → Sub d (.and conds)

/-- The condition names only steps of the past, and does not ask for the error of one that was
skipped. -/
def Answerable (past : List Status) (c : Cond) : Prop :=
  ∀ i, ((Cond.ok i).Sub c → i < past.length) ∧
    ((Cond.err i).Sub c → i < past.length ∧ past[i]? ≠ some .skipped)

/-- The condition of the step at `vm` is evaluated as the specification says, in all its parts, and
the step runs just when it has none or it is true.  This is about the steps before a forced rollback:
those after it are answered with `txTimeout` whatever their conditions are. -/
structure Specified (M : Machine σ β Q E) (vm : Vm σ β) (cond : Option Cond) : Prop where
  evaluated : ∀ c ∈ cond, ∀ d, d.Sub c →
    evalCond vm.results (M.isAutocommit vm.conn) d =
      .ok (Hrana.eval vm.past (M.isAutocommit vm.conn) d)
  runs : enabled (evalCond vm.results (M.isAutocommit vm.conn)) cond = .ok true ↔
    ∀ c ∈ cond, Hrana.eval vm.past (M.isAutocommit vm.conn) c = true

/-! ### One condition -/

section Condition

variable {past : List Status} {auto : Bool} {c d : Cond} {conds : List Cond} {i : ℕ}

/-- The results that the machine keeps. -/
def resultsOf (past : List Status) : List Bool :=
  past.map (fun status => decide (status = .succeeded))

theorem Cond.Sub.trans {e : Cond} (he : e.Sub d) (hd : d.Sub c) : e.Sub c := by
  induction hd with
  | refl => exact he
  | not _ ih => exact .not (ih he)
  | or hmem _ ih => exact .or hmem (ih he)
  | and hmem _ ih => exact .and hmem (ih he)

theorem Answerable.sub (h : Answerable past c) (hd : d.Sub c) : Answerable past d :=
  fun i => ⟨fun hi => (h i).1 (hi.trans hd), fun hi => (h i).2 (hi.trans hd)⟩

theorem getElem?_resultsOf (i : ℕ) :
    (resultsOf past)[i]? = past[i]?.map (fun status => decide (status = .succeeded)) :=
  getElem?_map ..

theorem evalCond_ok (hi : i < past.length) :
    evalCond (resultsOf past) auto (.ok i) = .ok (Hrana.eval past auto (.ok i)) := by
  simp only [evalCond, Hrana.eval, getElem?_resultsOf, getElem?_eq_getElem hi]
  rfl

/-- The only difference: for a skipped step, as for one with an error, the machine keeps `false`. -/
theorem evalCond_err_iff (hi : i < past.length) :
    evalCond (resultsOf past) auto (.err i) = .ok (Hrana.eval past auto (.err i)) ↔
      past[i]? ≠ some .skipped := by
  simp only [evalCond, Hrana.eval, getElem?_resultsOf, getElem?_eq_getElem hi]
  cases past[i] <;> simp [Status.isError]

mutual

theorem evalCond_eq : ∀ c : Cond, Answerable past c →
    evalCond (resultsOf past) auto c = .ok (Hrana.eval past auto c)
  | .ok i, h => evalCond_ok ((h i).1 (.refl _))
  | .err i, h => (evalCond_err_iff ((h i).2 (.refl _)).1).2 ((h i).2 (.refl _)).2
  | .not c, h => by
    rw [evalCond, evalCond_eq c (h.sub (.not (.refl c))), Hrana.eval]
    rfl
  | .and conds, h => by
    rw [evalCond, tryFold_and conds true (fun c hc => h.sub (.and hc (.refl c))), Hrana.eval,
      Bool.true_and]
  | .or conds, h => by
    rw [evalCond, tryFold_or conds false (fun c hc => h.sub (.or hc (.refl c))), Hrana.eval,
      Bool.false_or]
  | .isAutocommit, _ => by rw [evalCond, Hrana.eval]

theorem tryFold_and : ∀ (conds : List Cond) (x : Bool), (∀ c ∈ conds, Answerable past c) →
    tryFold (resultsOf past) auto Bool.and x conds = .ok (x && Hrana.all past auto conds)
  | [], x, _ => by rw [tryFold, Hrana.all, Bool.and_true]
  | c :: conds, x, h => by
    rw [tryFold, evalCond_eq c (h c mem_cons_self), Hrana.all, ← Bool.and_assoc]
    exact tryFold_and conds _ (fun d hd => h d (mem_cons_of_mem c hd))

theorem tryFold_or : ∀ (conds : List Cond) (x : Bool), (∀ c ∈ conds, Answerable past c) →
    tryFold (resultsOf past) auto Bool.or x conds = .ok (x || Hrana.any past auto conds)
  | [], x, _ => by rw [tryFold, Hrana.any, Bool.or_false]
  | c :: conds, x, h => by
    rw [tryFold, evalCond_eq c (h c mem_cons_self), Hrana.any, ← Bool.or_assoc]
    exact tryFold_or conds _ (fun d hd => h d (mem_cons_of_mem c hd))

end

theorem length_of_evalCond {i : ℕ} {b : Bool} (h : evalCond (resultsOf past) auto (.ok i) = .ok b ∨
      evalCond (resultsOf past) auto (.err i) = .ok b) : i < past.length := by
  by_contra hi
  simp [evalCond, getElem?_resultsOf, getElem?_eq_none (Nat.le_of_not_lt hi)] at h

/-- A condition is evaluated in all its parts as specified just when it is answerable. -/
theorem evaluated_iff :
    (∀ d : Cond, d.Sub c → evalCond (resultsOf past) auto d = .ok (Hrana.eval past auto d)) ↔
      Answerable past c := by
  refine ⟨fun h i => ⟨fun hi => ?_, fun hi => ?_⟩, fun h d hd => evalCond_eq d (h.sub hd)⟩
  · exact length_of_evalCond (.inl (h _ hi))
  · have hlt := length_of_evalCond (.inr (h _ hi))
    exact ⟨hlt, (evalCond_err_iff hlt).1 (h _ hi)⟩

end Condition

/-! ### Runs -/

section Runs

variable {M : Machine σ β Q E} {pgm : List (Step Q)} {vm vm' : Vm σ β} {step : Step Q} {e : Event}
  {es : List Event} {eval eval' : Vm σ β → Cond → Except ℕ Bool} {cond : Option Cond}

/-- The results are those of the steps so far, as long as there was no timeout. -/
structure Aligned (vm : Vm σ β) : Prop where
  step : vm.currentStep = vm.past.length
  results : vm.hasTimeout = false → vm.results = resultsOf vm.past

theorem aligned_new (builder : β) (conn : σ) (forced : Bool) :
    Aligned (Vm.new builder conn forced) :=
  ⟨rfl, fun _ => rfl⟩

/-- A step that is tried ends in one of four ways, and its result says whether it succeeded. -/
theorem tryStep_push {ev : Cond → Except ℕ Bool} (h : vm.tryStep M ev step = some vm') :
    ∃ conn builder status, status ≠ .timedOut ∧
      vm' = vm.push conn builder (decide (status = .succeeded)) status := by
  simp only [Vm.tryStep, bind_eq_bind, bind_eq_some_iff] at h
  obtain ⟨builder₁, -, h⟩ := h
  split at h
  · obtain ⟨_, -, h⟩ := bind_eq_some_iff.1 h
    obtain ⟨builder, -, h⟩ := bind_eq_some_iff.1 h
    exact ⟨_, builder, .refused, by decide, (some.inj h).symm⟩
  · obtain ⟨builder, -, h⟩ := bind_eq_some_iff.1 h
    exact ⟨_, builder, .skipped, by decide, (some.inj h).symm⟩
  · split at h
    · exact absurd h (by simp)
    · obtain ⟨_, -, h⟩ := bind_eq_some_iff.1 h
      obtain ⟨builder, -, h⟩ := bind_eq_some_iff.1 h
      exact ⟨_, builder, .failed, by decide, (some.inj h).symm⟩
    · obtain ⟨builder, -, h⟩ := bind_eq_some_iff.1 h
      exact ⟨_, builder, .succeeded, by decide, (some.inj h).symm⟩

theorem invalidate_eq (h : vm.invalidate M = some vm') :
    ∃ builder, vm' = { vm with
      currentStep := vm.currentStep + 1, builder := builder, past := vm.past ++ [.timedOut] } := by
  simp only [Vm.invalidate, bind_eq_bind, bind_eq_some_iff] at h
  obtain ⟨_, -, _, -, builder, -, h⟩ := h
  exact ⟨builder, (some.inj h).symm⟩

theorem aligned_turnWith (h : Aligned vm) (hturn : turnWith eval M pgm vm e = some vm') :
    Aligned vm' := by
  cases e with
  | forceRollback =>
    cases hturn
    unfold Vm.forceRollback
    split_ifs
    · exact h
    · exact ⟨h.step, h.results⟩
  | turn =>
    obtain ⟨step, -, hturn⟩ := bind_eq_some_iff.1 hturn
    by_cases ht : vm.lock.hasTimeout = true
    · rw [if_pos ht] at hturn
      obtain ⟨builder, rfl⟩ := invalidate_eq hturn
      refine ⟨?_, fun hf => absurd ht (by simp only at hf; simp [hf])⟩
      simp [Vm.lock, h.step]
    · rw [if_neg ht] at hturn
      obtain ⟨conn, builder, status, -, rfl⟩ := tryStep_push hturn
      have hf : vm.hasTimeout = false := by
        simp only [Vm.lock, Bool.or_eq_true, not_or, Bool.not_eq_true] at ht
        exact ht.1
      refine ⟨by simp [Vm.push, Vm.lock, h.step], fun _ => ?_⟩
      simp [Vm.push, Vm.lock, h.results hf, resultsOf]

theorem aligned_exec (h : Aligned vm) (hrun : Run.exec (turnWith eval M pgm) vm es = some vm') :
    Aligned vm' :=
  Run.exec_keeps (fun _ _ _ => aligned_turnWith) h hrun

theorem enabled_congr {ev ev' : Cond → Except ℕ Bool}
    (h : ∀ c ∈ cond, ev c = ev' c) : enabled ev cond = enabled ev' cond := by
  cases cond with
  | none => rfl
  | some c => exact h c rfl

/-- Two ways to evaluate conditions that agree wherever a run by the first comes to evaluate one
make the same runs. -/
theorem exec_congr (es : List Event) (eval eval' : Vm σ β → Cond → Except ℕ Bool)
    (h : ∀ es vm' step, Run.exec (turnWith eval M pgm) vm es = some vm' →
      pgm[vm'.currentStep]? = some step → vm'.lock.hasTimeout = false →
      ∀ c ∈ step.cond, eval vm'.lock c = eval' vm'.lock c) :
    Run.exec (turnWith eval M pgm) vm es = Run.exec (turnWith eval' M pgm) vm es := by
  induction es generalizing vm with
  | nil => rfl
  | cons e es ih =>
    have hturn : turnWith eval M pgm vm e = turnWith eval' M pgm vm e := by
      cases e with
      | forceRollback => rfl
      | turn =>
        simp only [turnWith]
        cases hstep : pgm[vm.currentStep]? with
        | none => rfl
        | some step =>
          simp only [bind_eq_bind, bind_some]
          split_ifs with ht
          · rfl
          · have heval := h [] vm step rfl hstep (by simpa using ht)
            simp only [Vm.tryStep, enabled_congr heval]
    simp only [Run.exec, ← hturn]
    cases hvm : turnWith eval M pgm vm e with
    | none => rfl
    | some vm₁ =>
      refine ih (fun es vm' step hrun => ?_)
      exact h (e :: es) vm' step (Run.exec_cons_iff.2 ⟨vm₁, hvm, hrun⟩)

/-- Where the results are aligned, a step's condition is treated as specified just when it is
answerable. -/
theorem specified_iff (h : Aligned vm) (ht : vm.lock.hasTimeout = false) :
    Specified M vm cond ↔ ∀ c ∈ cond, Answerable vm.past c := by
  have hf : vm.hasTimeout = false := by
    simp only [Vm.lock, Bool.or_eq_false_iff] at ht
    exact ht.1
  constructor
  · intro hs c hc
    exact evaluated_iff.1 (h.results hf ▸ hs.evaluated c hc)
  · intro ha
    have heval : ∀ c ∈ cond, ∀ d : Cond, d.Sub c →
        evalCond vm.results (M.isAutocommit vm.conn) d =
          .ok (Hrana.eval vm.past (M.isAutocommit vm.conn) d) := by
      intro c hc
      rw [h.results hf]
      exact evaluated_iff.2 (ha c hc)
    refine ⟨heval, ?_⟩
    cases cond with
    | none => simp [enabled]
    | some c => simp [enabled, heval c rfl c (.refl c)]

/-- **Conditions**: in every run of a program, whatever its statements do and wherever a rollback is
forced, the conditions that come to be evaluated are treated as specified, just when in the runs
that the specification prescribes no condition names a step that is not before its own or asks for
the error of a step that was skipped. -/
theorem conditions_iff (M : Machine σ β Q E) (pgm : List (Step Q)) (builder : β) (conn : σ)
    (forced : Bool) :
    (∀ es vm step, Run.exec (turn M pgm) (Vm.new builder conn forced) es = some vm →
        pgm[vm.currentStep]? = some step → vm.lock.hasTimeout = false →
        Specified M vm step.cond) ↔
      ∀ es vm step, Run.exec (Hrana.turn M pgm) (Vm.new builder conn forced) es = some vm →
        pgm[vm.currentStep]? = some step → vm.lock.hasTimeout = false →
        ∀ c ∈ step.cond, Answerable vm.past c := by
  constructor
  · intro h es vm step hrun hstep ht
    -- where conditions are treated as specified, the run is one that the specification prescribes
    have hsame := exec_congr es (fun vm => evalCond vm.results (M.isAutocommit vm.conn))
      (fun vm c => .ok (Hrana.eval vm.past (M.isAutocommit vm.conn) c))
      (fun es vm step hrun hstep ht c hc => (h es vm step hrun hstep ht).evaluated c hc c (.refl c))
    have hrun' := hsame.trans hrun
    exact (specified_iff (aligned_exec (aligned_new ..) hrun') ht).1 (h es vm step hrun' hstep ht)
  · intro h
    have hs : ∀ es vm step, Run.exec (Hrana.turn M pgm) (Vm.new builder conn forced) es = some vm →
        pgm[vm.currentStep]? = some step → vm.lock.hasTimeout = false →
        Specified M vm step.cond := by
      intro es vm step hrun hstep ht
      exact (specified_iff (aligned_exec (aligned_new ..) hrun) ht).2 (h es vm step hrun hstep ht)
    intro es vm step hrun
    have hsame := exec_congr es (fun vm c => .ok (Hrana.eval vm.past (M.isAutocommit vm.conn) c))
      (fun vm => evalCond vm.results (M.isAutocommit vm.conn))
      (fun es vm step hrun hstep ht c hc =>
        ((hs es vm step hrun hstep ht).evaluated c hc c (.refl c)).symm)
    exact hs es vm step (hsame.trans hrun)

/-- A machine on which every statement succeeds and nothing is refused. -/
def lenient : Machine Unit Unit Unit Unit where
  isAutocommit _ := true
  rollback conn := conn
  executeQuery conn builder _ := ((conn, builder), .ok (0, none))
  beginStep := some
  stepError builder _ := some builder
  finishStep builder _ _ := some builder

/-- Three steps: the second is for the case that the first fails, the third for the case that the
second does. -/
def fallbacks : List (Step Unit) := [⟨none, ()⟩, ⟨some (.err 0), ()⟩, ⟨some (.err 1), ()⟩]

/-- The first step succeeds and the second is skipped, and yet the third runs, as if the second had
failed. -/
theorem skipped_step_counts_as_failed :
    ¬ ∀ es vm step, Run.exec (turn lenient fallbacks) (Vm.new () () false) es = some vm →
      fallbacks[vm.currentStep]? = some step → vm.lock.hasTimeout = false →
      Specified lenient vm step.cond := by
  intro h
  have hs := (h [.turn, .turn] _ _ rfl rfl rfl).evaluated _ rfl _ (.refl _)
  exact absurd hs (by decide)

end Runs

end Server

end SqlAnywhere
