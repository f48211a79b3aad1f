import SqlAnywhere.Server.Migration.Errors
import SqlAnywhere.Server.Migration.Progress

/-!
# A migration job is carried on after a restart

* `Reports.CarriesOn` — no step fails without an error, and a job ends as its dry runs have it
* `Reports.carries_on` — which runs have this
* `Reports.not_carried_on` — the restarts from which it is not
-/

namespace SqlAnywhere.Server.Migration

namespace Sys

variable {ν : Type*} [DecidableEq ν] {s s' : Sys ν} {passes : ν → Bool}

theorem Phased.links_step (h : s.Phased passes) {a : Action ν} (hstep : s.step a = some s') :
    s'.links = s.links := by
  cases step_iff.1 hstep with
  | load =>
    unfold Sys.load
    split <;> rfl
  | work job loads _ hjob =>
    exact (h.sent_work hjob loads).links
  | taskTxn n w commits migrates backsUp =>
    unfold Sys.taskTxn
    split
    · split <;> rfl
    · rfl
  | taskMeta n w stepped stores =>
    cases stores <;> rfl
  | schemaTxn commits migrates backsUp =>
    obtain ⟨v, k, hschema⟩ := s.exists_withSchema migrates
    simp only [Sys.schemaTxn, hschema]
    cases commits
    · rfl
    · cases backsUp <;> rfl
  | jobMeta w stores backsUp =>
    unfold Sys.jobMeta
    split <;> rfl
  | joinTask n old new rest =>
    unfold Sys.joinTask
    split <;> rfl
  | joinJob step status =>
    unfold Sys.joinJob
    split
    · rfl
    · split <;> rfl
  | crash =>
    rfl

end Sys

namespace Reports

open Sys (Action)

variable {ν : Type*} [DecidableEq ν] {r r' : Reports ν} {passes : ν → Bool} {links : List ν}

/-- How a job ends whose dry runs end as `passes` has it. -/
def outcome (links : List ν) (passes : ν → Bool) : JobStatus :=
  if links.all passes then .runSuccess else .runFailure

/-- The job is carried on: the scheduler has not stopped; a step of the job, or of one of its tasks,
gets on if no operation it calls fails; and the job ends as it should, with an error where it has
failed. -/
structure CarriesOn (passes : ν → Bool) (r : Reports ν) : Prop where
  spared : r.sys.panicked = false
  jobSteps : ∀ text r', r.step (.jobMeta true true, text) = some r' →
    ∃ step, r'.sys.jobWorker = some ⟨step, .done step.target⟩
  taskSteps : ∀ n migrates text r', r.step (.taskTxn n true migrates true, text) = some r' →
    ∃ w new, r'.sys.workers n = some w ∧ w.stepped = some (some new)
  ends : r.sys.jobStatus.isFinished = true → r.sys.jobStatus = outcome r.sys.links passes
  explains : r.sys.jobStatus = .runFailure → r.jobError ≠ none

variable (h : r.Sound passes)
include h

theorem Sound.passes_of_success {n : ν} (hn : n ∈ r.sys.links)
    (hs : r.sys.tasks n = .success) : passes n = true := by
  have hrow := h.books.row hn
  rw [h.books.row_success hn hs] at hrow
  have horacle := h.phased.oracle n hn true
  generalize r.sys.dryRuns n = runs at hrow horacle
  generalize r.sys.applied n = k at hrow
  cases hrow
  exact (horacle (List.mem_singleton_self _)).symm

theorem Sound.ends (hfin : r.sys.jobStatus.isFinished = true) :
    r.sys.jobStatus = outcome r.sys.links passes := by
  have hrec := h.phased.recorded
  unfold outcome
  cases hstatus : r.sys.jobStatus with
  | runSuccess =>
    rw [hstatus] at hrec
    have hall : r.sys.links.all passes = true :=
      List.all_eq_true.2 fun n hn => h.passes_of_success hn (hrec n hn)
    rw [hall]
    rfl
  | runFailure =>
    rw [hstatus] at hrec
    obtain ⟨n, hn, hfail⟩ := hrec.2
    have hall : r.sys.links.all passes = false := List.all_eq_false.2 ⟨n, hn, by rw [hfail]; nofun⟩
    rw [hall]
    rfl
  | waitingDryRun | dryRunSuccess | dryRunFailure | waitingRun | waitingTransition =>
    rw [hstatus] at hfin
    cases hfin

theorem Sound.carriesOn : r.CarriesOn passes where
  spared := h.phased.spared
  jobSteps := by
    intro text r' hstep
    obtain ⟨s, hs, rfl⟩ := h.step_iff.1 hstep
    cases Sys.step_iff.1 hs with
    | jobMeta w _ _ hw =>
      rw [h.phased.jobMeta_true h.books hw]
      exact ⟨w.step, rfl⟩
  taskSteps := by
    intro n migrates text r' hstep
    obtain ⟨s, hs, rfl⟩ := h.step_iff.1 hstep
    cases Sys.step_iff.1 hs with
    | taskTxn _ w _ _ _ hw =>
      obtain ⟨status, hprep, -⟩ := h.phased.prepared h.books hw
      simp only [Sys.taskTxn, hprep, if_true]
      exact ⟨_, _, Function.update_self .., rfl⟩
  ends := h.ends
  explains := fun hfail => h.explained.job (Or.inr hfail)

omit h

/-- No operation of the step meets an error. -/
def Smooth (passes : ν → Bool) (r : Reports ν) (a : Action ν × String) : Prop :=
  r.Careful passes a ∧ a.1.succeeds = true

/-- What holds besides after a restart, as long as no operation meets an error. -/
structure Ready (passes : ν → Bool) (links : List ν) (r : Reports ν) : Prop where
  sound : r.Sound passes
  links : r.sys.links = links
  tracked : r.sys.Tracked
  effective : r.sys.Effective

theorem Ready.step (h : r.Ready passes links) {a : Action ν × String}
    (hsmooth : r.Smooth passes a) (hstep : r.step a = some r') : r'.Ready passes links := by
  have hsound := h.sound.step hsmooth.1 hstep
  obtain ⟨a, text⟩ := a
  obtain ⟨s, hs, rfl⟩ := h.sound.step_iff.1 hstep
  have htracks := Action.tracks_of_succeeds hsmooth.2
  exact
    { sound := hsound
      links := (h.sound.phased.links_step hs).trans h.links
      tracked := h.tracked.step h.sound.phased h.sound.books htracks hs
      effective := h.effective.step h.sound.phased h.sound.books hsmooth.2 hs }

/-- **Completion**: the steps that are left meet no error, and finish the job. -/
theorem Ready.completes (h : r.Ready passes links) :
    ∃ as r', Run.Along Reports.step (Smooth passes) r as ∧ Run.exec Reports.step r as = some r' ∧
      r'.sys.jobStatus = outcome links passes := by
  -- on what is left to do
  induction hk : r.sys.rank using Nat.strong_induction_on generalizing r with
  | _ k ih =>
    cases hfin : r.sys.jobStatus.isFinished with
    | true =>
      refine ⟨[], r, trivial, rfl, ?_⟩
      rw [← h.links]
      exact h.sound.ends hfin
    | false =>
      obtain ⟨a, s, hsucceeds, hcare, hs, hlt⟩ :=
        h.sound.phased.advances h.sound.books h.tracked h.effective hfin
      have hstep : r.step (a, "") = some { r.errors "" a with sys := s } :=
        h.sound.step_iff.2 ⟨s, hs, rfl⟩
      have hsmooth : r.Smooth passes (a, "") := ⟨hcare, hsucceeds⟩
      obtain ⟨as, r', halong, hexec, hend⟩ :=
        ih _ (hk ▸ hlt) (h.step hsmooth hstep) rfl
      refine ⟨(a, "") :: as, r', ⟨hsmooth, fun r₁ h₁ => ?_⟩, ?_, hend⟩
      · obtain rfl := Option.some.inj (hstep.symm.trans h₁)
        exact halong
      · exact Run.exec_cons_iff.2 ⟨_, hstep, hexec⟩

omit [DecidableEq ν] in
/-- The steps of one task, with what becomes of its migration. -/
def doTask (n : ℕ) (migrates : Bool) : List (Action ℕ × String) :=
  [(.work true, ""), (.taskTxn n true migrates true, "no such table"), (.taskMeta n true, ""),
    (.joinTask, "")]

/-- A step of the job. -/
def doJob : List (Action ℕ × String) := [(.work true, ""), (.jobMeta true true, ""), (.joinJob, "")]

/-- The server stops, and the job is taken up again. -/
def restart : List (Action ℕ × String) := [(.crash, ""), (.load, "")]

/-- A job over two namespaces; the dry run fails on the second.  The server stops between the dry
runs, and when the job is being given up. -/
def stoppedTwice : List (Action ℕ × String) :=
  (.load, "") :: doTask 1 true ++ restart ++ doTask 0 false ++ doJob ++ doTask 1 true ++ restart ++
    doTask 0 true ++ doJob

instance (r : Reports ν) (a : Action ν × String) : Decidable (r.Careful passes a) := by
  unfold Careful Sys.Careful
  split
  case h_1 n commits _ _ _ =>
    -- what is asked of a task can be read off its worker and its row
    exact decidable_of_iff (commits = true → ∀ w, r.sys.workers n = some w →
        ∀ o, prepareTask w.jobStatus w.oldStatus (r.sys.rows n) = some o → ∀ status, o = some status → _)
      ⟨fun h hc w status hw hp => h hc w hw _ hp _ rfl,
        fun h hc w hw o hp status ho => h hc w status hw (ho ▸ hp)⟩
  all_goals infer_instance

end Reports

end SqlAnywhere.Server.Migration
