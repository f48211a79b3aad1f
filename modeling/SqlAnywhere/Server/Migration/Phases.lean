import Mathlib.Tactic.MkIffOfInductiveProp
import SqlAnywhere.Server.Migration.Once

/-!
# The phases of a migration job

The scheduler infers the phase of a job from the statuses of its tasks when it takes the job up, and
moves it on from there; the phase is on record nowhere.  This module says what each phase goes with:
the statuses its tasks stand at, the rows of the namespaces, the workers that are out.

* `Sys.Bookkept` — the invariant of the job, whatever becomes of the schema database
* `Sys.phase`, `Sys.PhaseOk`, `Sys.Starts`, `Sys.StepOk` — the phase, and what goes with it
* `Sys.Phased` — the invariant
* `Sys.Restartable`, `Sys.Careful` — where a job can be taken up again, and the runs considered
-/

namespace SqlAnywhere.Server.Migration

namespace Sys

variable {ν : Type*} {s s' : Sys ν} {n : ν}

/-! ### The invariant of a job, whatever becomes of the schema database -/

/-- The same job over another schema database. -/
def withSchema (s : Sys ν) (jobId schemaVersion schemaApplied : ℕ) : Sys ν :=
  { s with jobId := jobId, schemaVersion := schemaVersion, schemaApplied := schemaApplied }

variable [DecidableEq ν] {passes : ν → Bool}

/-- The invariant of a job holds but for its schema database. -/
def Bookkept (s : Sys ν) : Prop :=
  ∃ jobId schemaVersion schemaApplied, (s.withSchema jobId schemaVersion schemaApplied).Inv

/-- The action with a migration that succeeds on the schema database. -/
def Action.migrating : Action ν → Action ν
  | .schemaTxn commits _ backsUp => .schemaTxn commits true backsUp
  | a => a

omit [DecidableEq ν] in
theorem load_withSchema (j v k : ℕ) : (s.withSchema j v k).load = s.load.withSchema j v k := by
  unfold load
  rw [apply_ite (fun t : Sys ν => t.withSchema j v k)]
  rfl

theorem spawnTask_withSchema (j v k : ℕ) (job : Job) (loads : Bool) :
    (s.withSchema j v k).spawnTask job loads = (s.spawnTask job loads).withSchema j v k := by
  simp only [spawnTask, withSchema]
  split
  · rfl
  · cases loads <;> rfl

theorem enqueueTask_withSchema (j v k : ℕ) (job : Job) (loads : Bool) :
    (s.withSchema j v k).enqueueTask job loads = (s.enqueueTask job loads).withSchema j v k := by
  unfold enqueueTask
  rw [apply_ite (fun t : Sys ν => t.withSchema j v k), ← spawnTask_withSchema,
    ← spawnTask_withSchema]
  rfl

theorem work_withSchema (j v k : ℕ) (job : Job) (loads : Bool) :
    (s.withSchema j v k).work job loads = (s.work job loads).withSchema j v k := by
  have henqueue := enqueueTask_withSchema (s := s) j v k job loads
  unfold work
  rw [henqueue]
  split
  · split
    · rfl
    · split <;> rfl
  · rfl
  · split <;> rfl
  · split
    · rfl
    · split <;> rfl
  · rfl
  · rfl
  · rfl

theorem taskTxn_withSchema (j v k : ℕ) (w : TaskWorker) (commits migrates backsUp : Bool) :
    (s.withSchema j v k).taskTxn n w commits migrates backsUp =
      (s.taskTxn n w commits migrates backsUp).withSchema j v k := by
  cases commits with
  | false => rfl
  | true =>
    have hrow : (s.withSchema j v k).rows n = s.rows n := rfl
    simp only [taskTxn, hrow]
    generalize prepareTask w.jobStatus w.oldStatus (s.rows n) = prepared
    rcases prepared with _ | _ | status <;> rfl

section

omit [DecidableEq ν]

theorem exists_withSchema (s : Sys ν) (migrates : Bool) :
    ∃ v k, s.migrateSchema migrates = s.withSchema s.jobId v k := by
  unfold migrateSchema
  split
  · exact ⟨s.jobId, _, rfl⟩
  · exact ⟨s.schemaVersion, s.schemaApplied, rfl⟩

theorem migrateSchema_withSchema (j v k : ℕ) (migrates : Bool) :
    ∃ v' k', (s.withSchema j v k).migrateSchema true =
      (s.migrateSchema migrates).withSchema j v' k' := by
  have hforget : ∀ v' k', (s.migrateSchema migrates).withSchema j v' k' = s.withSchema j v' k' := by
    intro v' k'
    obtain ⟨v₀, k₀, heq⟩ := s.exists_withSchema migrates
    rw [heq]
    rfl
  by_cases hv : v = j
  · refine ⟨v, k, ?_⟩
    rw [hforget]
    exact if_neg (fun hne : v ≠ j => hne hv)
  · refine ⟨j, k + 1, ?_⟩
    rw [hforget]
    exact if_pos hv

theorem schemaTxn_withSchema (j v k : ℕ) (w : JobWorker) (commits migrates backsUp : Bool) :
    ∃ v' k', (s.withSchema j v k).schemaTxn w commits true backsUp =
      (s.schemaTxn w commits migrates backsUp).withSchema j v' k' := by
  cases commits with
  | false => exact ⟨v, k, rfl⟩
  | true =>
    obtain ⟨v', k', heq⟩ := migrateSchema_withSchema (s := s) j v k migrates
    refine ⟨v', k', ?_⟩
    simp only [schemaTxn, heq]
    cases backsUp <;> rfl

theorem jobMeta_withSchema (j v k : ℕ) (w : JobWorker) (stores backsUp : Bool) :
    (s.withSchema j v k).jobMeta w stores backsUp =
      (s.jobMeta w stores backsUp).withSchema j v k := by
  unfold jobMeta
  rw [apply_ite (fun t : Sys ν => t.withSchema j v k)]
  rfl

end

theorem joinTask_withSchema (j v k : ℕ) (old new : TaskStatus)
    (rest : List (ν × TaskStatus × TaskStatus)) :
    (s.withSchema j v k).joinTask n old new rest =
      (s.joinTask n old new rest).withSchema j v k := by
  have hjob : (s.withSchema j v k).job = s.job := rfl
  simp only [joinTask, hjob]
  cases s.job <;> rfl

omit [DecidableEq ν] in
theorem joinJob_withSchema (j v k : ℕ) (status : JobStatus) :
    (s.withSchema j v k).joinJob status = (s.joinJob status).withSchema j v k := by
  have hjob : (s.withSchema j v k).job = s.job := rfl
  simp only [joinJob, hjob]
  cases s.job
  · rfl
  · cases status.isFinished <;> rfl

theorem step_withSchema {a : Action ν} (h : s.step a = some s') (j v k : ℕ) :
    ∃ v' k', (s.withSchema j v k).step a.migrating = some (s'.withSchema j v' k') := by
  simp only [step_iff] at h ⊢
  cases h with
  | load hspared hjob =>
    exact ⟨v, k, load_withSchema (s := s) j v k ▸ .load hspared hjob⟩
  | work job loads hspared hjob =>
    exact ⟨v, k, work_withSchema (s := s) j v k job loads ▸ .work _ _ hspared hjob⟩
  | taskTxn n w commits migrates backsUp hw hstepped =>
    refine ⟨v, k, ?_⟩
    rw [← taskTxn_withSchema]
    exact .taskTxn _ _ _ _ _ hw hstepped
  | taskMeta n w stepped stores hw hstepped =>
    refine ⟨v, k, ?_⟩
    have hstep : (s.withSchema j v k).Step _ _ := .taskMeta n w stepped stores hw hstepped
    cases stores <;> exact hstep
  | schemaTxn commits migrates backsUp hw =>
    obtain ⟨v', k', heq⟩ := schemaTxn_withSchema (s := s) j v k _ commits migrates backsUp
    exact ⟨v', k', heq ▸ .schemaTxn _ _ _ hw⟩
  | jobMeta w stores backsUp hw hat =>
    exact ⟨v, k, jobMeta_withSchema (s := s) j v k w stores backsUp ▸ .jobMeta _ _ _ hw hat⟩
  | joinTask n old new rest hspared hresults =>
    exact ⟨v, k, joinTask_withSchema (s := s) j v k old new rest ▸
      .joinTask _ _ _ _ hspared hresults⟩
  | joinJob step status hspared hw =>
    exact ⟨v, k, joinJob_withSchema (s := s) j v k status ▸ .joinJob _ _ hspared hw⟩
  | crash => exact ⟨v, k, .crash⟩

theorem Bookkept.step (h : s.Bookkept) {a : Action ν} (hstep : s.step a = some s') :
    s'.Bookkept := by
  obtain ⟨jobId, version, applied, hinv⟩ := h
  obtain ⟨version', applied', hstep⟩ := step_withSchema hstep jobId version applied
  refine ⟨jobId, version', applied', hinv.step ?_ hstep⟩
  cases a with
  | schemaTxn commits migrates backsUp => exact fun _ _ => rfl
  | _ => trivial

theorem bookkept_registered {links : List ν} (hnodup : links.Nodup) (jobId schemaVersion : ℕ) :
    (registered links jobId (fun _ => none) schemaVersion).Bookkept :=
  ⟨1, 0, 0, inv_registered hnodup (fun _ _ => rfl) Nat.zero_ne_one⟩

/-! What the rest of the development uses of the invariant of the job. -/

namespace Bookkept

variable (h : s.Bookkept)
include h

theorem worker {w : TaskWorker} (hw : s.workers n = some w) : s.WorkerOk n w := by
  obtain ⟨_, _, _, hinv⟩ := h
  exact { hinv.worker n w hw with }

theorem batch {p : ν × TaskStatus} (hp : p ∈ s.batch) : s.BatchOk p.1 p.2 := by
  obtain ⟨_, _, _, hinv⟩ := h
  exact { hinv.batch p hp with }

theorem row (hn : n ∈ s.links) : RowOk (s.rows n) (s.dryRuns n) (s.applied n) := by
  obtain ⟨_, _, _, hinv⟩ := h
  exact hinv.row n hn

theorem task (hn : n ∈ s.links) : Tells (s.rows n) (s.dryRuns n) (s.tasks n) := by
  obtain ⟨_, _, _, hinv⟩ := h
  exact hinv.task n hn

theorem count {job : Job} (hjob : s.job = some job) (status : TaskStatus) :
    job.progress status = s.links.countP (fun n => s.seen n == status) := by
  obtain ⟨_, _, _, hinv⟩ := h
  exact hinv.count job hjob status

theorem seen_of_all {job : Job} (hjob : s.job = some job) {status : TaskStatus}
    (hall : job.progressAll status = true) (hn : n ∈ s.links) : s.seen n = status := by
  obtain ⟨_, _, _, hinv⟩ := h
  exact hinv.seen_of_all hjob hall hn

theorem seen_of_progress {job : Job} (hjob : s.job = some job) {status : TaskStatus}
    (hne : job.progress status ≠ 0) : ∃ n ∈ s.links, s.seen n = status := by
  obtain ⟨_, _, _, hinv⟩ := h
  exact hinv.seen_of_progress hjob hne

theorem leads {job : Job} (hjob : s.job = some job) :
    Leads s.tasks s.seen s.results := by
  obtain ⟨_, _, _, hinv⟩ := h
  exact hinv.leads (by show s.job.isSome = true; rw [hjob]; rfl)

theorem result_mem {r : ν × TaskStatus × TaskStatus} (hr : r ∈ s.results) :
    r.1 ∈ s.links := by
  obtain ⟨_, _, _, hinv⟩ := h
  exact (hinv.result r hr).1

theorem waiting {w : JobWorker} (hw : s.jobWorker = some w) :
    s.job.isSome = true := by
  obtain ⟨_, _, _, hinv⟩ := h
  exact hinv.waiting w hw

theorem jobWorker_none (hjob : s.job = none) : s.jobWorker = none := by
  cases hw : s.jobWorker with
  | none => rfl
  | some w =>
    have hsome := h.waiting hw
    simp [hjob] at hsome

theorem failed {w : JobWorker} (hw : s.jobWorker = some w)
    (hstep : w.step = .failure) : s.Failed := by
  obtain ⟨_, _, _, hinv⟩ := h
  have hev := (hinv.jobWorker w hw).step
  rw [hstep] at hev
  exact hev

theorem row_success (hn : n ∈ s.links) (hs : s.tasks n = .success) :
    s.rows n = some .success := by
  have htells := h.task hn
  rw [hs] at htells
  exact htells

theorem task_ne_run (hn : n ∈ s.links) : s.tasks n ≠ .run := by
  intro hr
  have htells := h.task hn
  rw [hr] at htells
  exact htells

end Bookkept

/-! ### The phase of a job -/

/-- The status a job in the scheduler's memory is at, or was at before the step it waits for. -/
def phase (s : Sys ν) : Option JobStatus :=
  match s.job, s.jobWorker with
  | none, _ => none
  | some _, some w => some w.step.fallback
  | some job, none => some job.status

omit [DecidableEq ν] in
theorem phase_of_job {job : Job} (hjob : s.job = some job) (hw : s.jobWorker = none) :
    s.phase = some job.status := by
  simp only [phase, hjob, hw]

/-- The phase of a job that is being stepped is the one its step falls back to. -/
theorem Bookkept.phase_of_worker (h : s.Bookkept) {w : JobWorker} (hw : s.jobWorker = some w) :
    s.phase = some w.step.fallback := by
  obtain ⟨job, hjob⟩ := Option.isSome_iff_exists.1 (h.waiting hw)
  simp only [phase, hjob, hw]

/-- The status the tasks stand at in a phase. -/
def Stands : JobStatus → TaskStatus → Prop
  | .waitingDryRun, task => task = .enqueued ∨ task = .dryRunSuccess ∨ task = .dryRunFailure
  | .dryRunSuccess, task => task = .dryRunSuccess
  | .waitingRun, task => task = .dryRunSuccess ∨ task = .success
  | .dryRunFailure, task => task ≠ .success
  | _, _ => False

/-- The tasks taken up in a phase. -/
def Takes : JobStatus → TaskStatus → Prop
  | .waitingDryRun, old => old = .enqueued
  | .waitingRun, old => old = .dryRunSuccess
  | .dryRunFailure, _ => True
  | _, _ => False

/-- What the worker of a task makes of it. -/
def Returns : JobStatus → TaskStatus → Prop
  | .waitingDryRun, new => new = .dryRunSuccess ∨ new = .dryRunFailure
  | .waitingRun, new => new = .success
  | .dryRunFailure, new => new = .failure
  | _, _ => False

/-- Some task has failed its dry run. -/
def TaskFailed (s : Sys ν) : Prop :=
  ∃ n ∈ s.links, s.tasks n = .dryRunFailure ∨ s.tasks n = .failure

/-- What a phase goes with in the databases. -/
structure PhaseOk (s : Sys ν) (phase : JobStatus) : Prop where
  stands : ∀ n ∈ s.links, Stands phase (s.tasks n)
  /-- A dry run is made where neither the migration nor its abortion is on record. -/
  rows : phase = .waitingDryRun → ∀ n ∈ s.links, s.rows n ≠ some .failure ∧ s.rows n ≠ some .success
  /-- A job that waits for its dry runs can be moved on, or is known to have failed. -/
  waits : phase = .waitingDryRun → s.jobStatus = .waitingDryRun ∨ s.jobStatus = .dryRunSuccess ∨
    s.jobStatus = .dryRunFailure ∧ ∃ n ∈ s.links, s.seen n = .dryRunFailure
  aborts : phase = .dryRunFailure →
    s.TaskFailed ∧ (s.jobStatus = .dryRunFailure ∨ s.jobStatus = .runFailure)
  inferred : phase ≠ .runSuccess ∧ phase ≠ .runFailure ∧ phase ≠ .waitingTransition

/-- A worker that is out in a phase: it was sent in that phase, or for a dry run before the job was
given up. -/
structure Starts (s : Sys ν) (phase : JobStatus) (n : ν) (w : TaskWorker) : Prop where
  job : w.jobStatus = phase ∨ phase = .dryRunFailure ∧ w.jobStatus = .waitingDryRun
  takes : Takes w.jobStatus w.oldStatus
  row : w.jobStatus = .waitingDryRun → s.rows n ≠ some .failure
  returns : ∀ new, w.stepped = some (some new) → Returns w.jobStatus new

/-- No task is out. -/
def Quiet (s : Sys ν) : Prop := s.results = [] ∧ s.batch = [] ∧ ∀ n, s.workers n = none

/-- What the scheduler knows when it sends for a step of the job. -/
def StepOk (s : Sys ν) : JobStep → Prop
  | .dryRunFailure => ∃ n ∈ s.links, s.seen n = .dryRunFailure ∧ s.tasks n = .dryRunFailure
  | .dryRunSuccess | .waitingRun => (∀ n ∈ s.links, s.tasks n = .dryRunSuccess) ∧ s.Quiet
  | .runSuccess => (∀ n ∈ s.links, s.tasks n = .success) ∧ s.Quiet
  | .failure => (∀ n ∈ s.links, s.tasks n = .failure) ∧ s.Quiet

/-- What the status of the job in the metastore says. -/
def Recorded (passes : ν → Bool) (s : Sys ν) : JobStatus → Prop
  | .waitingDryRun => True
  | .dryRunSuccess | .waitingRun => ∀ n ∈ s.links, s.tasks n = .dryRunSuccess ∨ s.tasks n = .success
  | .dryRunFailure => s.TaskFailed
  | .runSuccess => ∀ n ∈ s.links, s.tasks n = .success
  | .runFailure => (∀ n ∈ s.links, s.tasks n = .failure) ∧ ∃ n ∈ s.links, passes n = false
  | .waitingTransition => False

/-! ### The runs considered -/

/-- Where the server may stop: the status inferred from the tasks of an unfinished job is one to go
on from. -/
@[mk_iff]
structure Restartable (s : Sys ν) : Prop where
  /-- Not between the last task's success and the job's. -/
  success : s.links ≠ [] → ∃ n ∈ s.links, s.tasks n ≠ .success
  /-- Not after the tasks whose dry run has failed were aborted, before the job has failed. -/
  failure : (∃ n ∈ s.links, s.tasks n = .failure) → ∃ n ∈ s.links, s.tasks n = .dryRunFailure
  /-- Not between the failure of a dry run and its report in the job. -/
  dryRun : (∃ n ∈ s.links, s.tasks n = .dryRunFailure) → s.jobStatus = .dryRunFailure
  /-- Not where a job without tasks waits for its run. -/
  empty : s.links = [] → s.jobStatus ≠ .waitingRun

instance (s : Sys ν) : Decidable s.Restartable := decidable_of_iff' _ (restartable_iff s)

/-- The server does not stop where an unfinished job cannot be taken up again; a dry run on a
namespace ends as `passes` has it, and where it has succeeded the migration does. -/
def Careful (passes : ν → Bool) (s : Sys ν) : Action ν → Prop
  | .taskTxn n commits migrates _ => commits = true → ∀ w status, s.workers n = some w →
    prepareTask w.jobStatus w.oldStatus (s.rows n) = some (some status) →
      (status = .enqueued → migrates = passes n) ∧ (status = .run → migrates = true)
  | .crash => s.jobStatus.isFinished = false → s.Restartable
  | _ => True

/-- The invariant of such runs. -/
structure Phased (passes : ν → Bool) (s : Sys ν) : Prop where
  spared : s.panicked = false
  oracle : ∀ n ∈ s.links, ∀ b ∈ s.dryRuns n, b = passes n
  failed : ∀ n ∈ s.links, s.rows n = some .failure → s.TaskFailed
  ran : ∀ n ∈ s.links, s.rows n = some .success →
    ∀ m ∈ s.links, s.tasks m = .dryRunSuccess ∨ s.tasks m = .success
  recorded : s.Recorded passes s.jobStatus
  transit : ∀ job, s.job = some job → (job.status = .waitingTransition ↔ s.jobWorker.isSome = true)
  idle : s.job = none → s.Quiet ∧ (s.jobStatus.isFinished = false → s.Restartable)
  phase : ∀ p, s.phase = some p → s.PhaseOk p
  worker : ∀ p, s.phase = some p → ∀ n w, s.workers n = some w → s.Starts p n w
  batch : ∀ p, s.phase = some p → ∀ b ∈ s.batch, Takes p b.2
  results : ∀ p, s.phase = some p → ∀ r ∈ s.results, Takes p r.2.1
  jobWorker : ∀ w, s.jobWorker = some w → s.StepOk w.step
  done : ∀ step status, s.jobWorker = some ⟨step, .done status⟩ →
    status = step.fallback ∨ status = step.target ∧ s.jobStatus = step.target

/-! ### Taking up the job -/

omit [DecidableEq ν] in
theorem progress_ne_zero {status : TaskStatus} :
    s.progress status ≠ 0 ↔ ∃ n ∈ s.links, s.tasks n = status := by
  rw [← Nat.pos_iff_ne_zero]
  refine List.countP_pos_iff.trans ?_
  simp only [beq_iff_eq]

/-- The status inferred for an unfinished job that can be taken up again. -/
theorem Phased.inferred (h : s.Phased passes) (hb : s.Bookkept)
    (hfin : s.jobStatus.isFinished = false) (hre : s.Restartable) (job : Option Job) :
    { s with job := job, seen := s.tasks }.PhaseOk (statusFromProgress s.progress) := by
  have hrun : ∀ m ∈ s.links, s.tasks m = .success →
      ∀ n ∈ s.links, s.tasks n = .dryRunSuccess ∨ s.tasks n = .success :=
    fun m hm hs => h.ran m hm (hb.row_success hm hs)
  unfold statusFromProgress
  split
  · next hdry =>
    obtain ⟨m, hm, hdry⟩ := progress_ne_zero.1 hdry
    refine ⟨?_, nofun, nofun, fun _ => ⟨⟨m, hm, Or.inl hdry⟩, Or.inl (hre.dryRun ⟨m, hm, hdry⟩)⟩,
      by decide⟩
    intro n hn hs
    rcases hrun n hn hs m hm with heq | heq
    all_goals
      simp [hdry] at heq
  · next hdry =>
    have hdry' : ¬ ∃ n ∈ s.links, s.tasks n = .dryRunFailure := fun hex => hdry (progress_ne_zero.2 hex)
    have hfail : ¬ ∃ n ∈ s.links, s.tasks n = .failure := fun hex => hdry' (hre.failure hex)
    have hnot : ¬ s.TaskFailed := by
      rintro ⟨n, hn, heq | heq⟩
      · exact hdry' ⟨n, hn, heq⟩
      · exact hfail ⟨n, hn, heq⟩
    rw [if_neg fun hne => hfail (progress_ne_zero.1 hne)]
    -- what the metastore can have of a job whose dry runs have not failed
    have hstored : s.jobStatus = .waitingRun ∧
          (∀ n ∈ s.links, s.tasks n = .dryRunSuccess ∨ s.tasks n = .success) ∨
        s.jobStatus = .waitingDryRun ∨ s.jobStatus = .dryRunSuccess := by
      have hrec := h.recorded
      generalize s.jobStatus = status at hrec hfin ⊢
      cases status with
      | waitingDryRun => exact Or.inr (Or.inl rfl)
      | dryRunSuccess => exact Or.inr (Or.inr rfl)
      | dryRunFailure => exact absurd hrec hnot
      | waitingRun => exact Or.inl ⟨rfl, hrec⟩
      | runSuccess | runFailure => cases hfin
      | waitingTransition => exact hrec.elim
    split
    · next henq =>
      obtain ⟨m, hm, henq⟩ := progress_ne_zero.1 henq
      have hnotRun : ¬ ∀ n ∈ s.links, s.tasks n = .dryRunSuccess ∨ s.tasks n = .success := by
        intro hall
        rcases hall m hm with heq | heq
        all_goals
          simp [henq] at heq
      refine ⟨?_, fun _ n hn => ⟨fun hrow => hnot (h.failed n hn hrow), fun hrow =>
        hnotRun (h.ran n hn hrow)⟩, fun _ => ?_, nofun, by decide⟩
      · intro n hn
        cases htask : s.tasks n with
        | enqueued => exact Or.inl rfl
        | dryRunSuccess => exact Or.inr (Or.inl rfl)
        | dryRunFailure => exact Or.inr (Or.inr rfl)
        | run => exact absurd htask (hb.task_ne_run hn)
        | success => exact absurd (hrun n hn htask) hnotRun
        | failure => exact absurd ⟨n, hn, htask⟩ hfail
      · exact (hstored.resolve_left fun hrun => hnotRun hrun.2).imp_right Or.inl
    · next henq =>
      have henq' : ¬ ∃ n ∈ s.links, s.tasks n = .enqueued := fun hex => henq (progress_ne_zero.2 hex)
      have hstands : ∀ n ∈ s.links, s.tasks n = .dryRunSuccess ∨ s.tasks n = .success := by
        intro n hn
        cases htask : s.tasks n with
        | enqueued => exact absurd ⟨n, hn, htask⟩ henq'
        | dryRunSuccess => exact Or.inl rfl
        | dryRunFailure => exact absurd ⟨n, hn, htask⟩ hdry'
        | run => exact absurd htask (hb.task_ne_run hn)
        | success => exact Or.inr rfl
        | failure => exact absurd ⟨n, hn, htask⟩ hfail
      split
      · exact ⟨hstands, nofun, nofun, nofun, by decide⟩
      rename_i hleft
      -- no task is left to run: the job has none, or all have succeeded
      rw [not_or] at hleft
      have hnone : s.links = [] := by
        by_contra hne
        obtain ⟨n, hn, hs⟩ := hre.success hne
        exact hleft.1 (progress_ne_zero.2 ⟨n, hn, (hstands n hn).resolve_right hs⟩)
      have hzero : s.progress .success = 0 := by
        rw [Sys.progress, hnone]
        rfl
      rw [if_neg fun hne => hne hzero]
      have hno : ∀ n, n ∉ s.links := by
        intro n
        rw [hnone]
        exact List.not_mem_nil
      refine ⟨fun n hn => absurd hn (hno n), fun _ n hn => absurd hn (hno n), fun _ => ?_, nofun,
        by decide⟩
      exact (hstored.resolve_left fun hrun => hre.empty hnone hrun.1).imp_right Or.inl

theorem Phased.load (h : s.Phased passes) (hb : s.Bookkept)
    (hjob : s.job = none) : s.load.Phased passes := by
  unfold Sys.load
  split
  · exact h
  rename_i hfin
  rw [Bool.not_eq_true] at hfin
  obtain ⟨⟨hresults, hbatch, hworkers⟩, hre⟩ := h.idle hjob
  have hnone := hb.jobWorker_none hjob
  have hphase : ∀ p, Sys.phase { s with
      job := some { status := statusFromProgress s.progress, progress := s.progress }
      seen := s.tasks } = some p → p = statusFromProgress s.progress := by
    intro p hp
    simp only [Sys.phase, hnone] at hp
    exact (Option.some.inj hp).symm
  have hok := h.inferred hb hfin (hre hfin)
    (some { status := statusFromProgress s.progress, progress := s.progress })
  exact
    { h with
      transit := by
        rintro job ⟨⟩
        rw [hnone]
        exact ⟨fun heq => absurd heq hok.inferred.2.2, nofun⟩
      idle := nofun
      phase := by
        intro p hp
        rw [hphase p hp]
        exact hok
      worker := by
        intro p _ n w hw
        have hw : s.workers n = some w := hw
        simp [hworkers n] at hw
      batch := by
        intro p _ b hmem
        simp [hbatch] at hmem
      results := by
        intro p _ r hmem
        simp [hresults] at hmem
      jobWorker := by
        intro w hw
        have hw : s.jobWorker = some w := hw
        simp [hnone] at hw
      done := by
        intro step status hw
        have hw : s.jobWorker = _ := hw
        rw [hnone] at hw
        cases hw }

end Sys

end SqlAnywhere.Server.Migration
