import SqlAnywhere.Server.Migration.Rows

/-!
# The invariant of a migration job, and the steps of the scheduler

The phases of a job exclude each other although no database records them: whoever acts on a job that
waits for its runs (the scheduler, a worker of a task, a worker of the job) does so on evidence that
the dry run has passed on every linked namespace, and whoever aborts it on evidence that it has
failed on one (`Sys.Evidence`, `Sys.StepEvidence`).

* `Sys.Inv` — the invariant
* `Sys.Inv.load`, `Sys.Inv.work`, `Sys.Inv.joinTask`, `Sys.Inv.joinJob`, `Sys.Inv.crash` — the
  scheduler keeps it, and so does a restart
-/

namespace SqlAnywhere.Server.Migration

open List

theorem JobStep.fallback_unfinished (step : JobStep) : step.fallback.isFinished = false := by
  cases step <;> rfl

theorem JobStep.fallback_ne (step : JobStep) : step.fallback ≠ .waitingTransition := by
  cases step <;> nofun

namespace Sys

variable {ν : Type*} [DecidableEq ν] {s s' : Sys ν} {n : ν} {job : Job} {status : TaskStatus}
  {step : JobStep}

/-- The dry run has succeeded on every linked namespace. -/
def Passed (s : Sys ν) : Prop := ∀ n ∈ s.links, s.dryRuns n = [true]

/-- The dry run has failed on a linked namespace. -/
def Failed (s : Sys ν) : Prop := ∃ n ∈ s.links, s.dryRuns n = [false]

omit [DecidableEq ν] in
theorem Passed.not_failed (h : s.Passed) : ¬ s.Failed := by
  rintro ⟨n, hn, hfail⟩
  simp [h n hn] at hfail

/-- What a status of the job says, in the scheduler's memory or in a worker's. -/
def Evidence (s : Sys ν) : JobStatus → Prop
  | .dryRunSuccess | .waitingRun => s.Passed
  | .dryRunFailure => s.Failed
  | _ => True

/-- What a step of the job is spawned on. -/
def StepEvidence (s : Sys ν) : JobStep → Prop
  | .failure | .dryRunFailure => s.Failed
  | .waitingRun => s.Passed
  | .dryRunSuccess => True
  | .runSuccess => s.Passed ∧ ∀ n ∈ s.links, s.tasks n = .success

omit [DecidableEq ν] in
theorem StepEvidence.fallback (h : s.StepEvidence step) :
    s.Evidence step.fallback := by
  cases step with
  | failure | waitingRun => exact h
  | dryRunFailure | dryRunSuccess => trivial
  | runSuccess => exact h.1

/-- A worker of a task. -/
structure WorkerOk (s : Sys ν) (n : ν) (w : TaskWorker) : Prop where
  mem : n ∈ s.links
  task : s.tasks n = w.oldStatus
  unfinished : w.oldStatus.isFinished = false
  enqueued : s.enqueued n = true
  job : s.Evidence w.jobStatus
  stepped : ∀ status, w.stepped = some (some status) → Tells (s.rows n) (s.dryRuns n) status

/-- A task of the batch. -/
structure BatchOk (s : Sys ν) (n : ν) (status : TaskStatus) : Prop where
  mem : n ∈ s.links
  task : s.tasks n = status
  unfinished : status.isFinished = false
  enqueued : s.enqueued n = true
  free : s.workers n = none

/-- A worker that steps the job. -/
structure JobWorkerOk (s : Sys ν) (w : JobWorker) : Prop where
  step : s.StepEvidence w.step
  migrated : w.phase = .migrated → w.step = .runSuccess ∧ s.schemaVersion = s.jobId
  done : ∀ status, w.phase = .done status →
    s.Evidence status ∧ (status.isFinished = true → s.jobStatus = status)

/-- The invariant of a job whose migration does not fail on the schema database. -/
structure Inv (s : Sys ν) : Prop where
  nodup : s.links.Nodup
  row : ∀ n ∈ s.links, RowOk (s.rows n) (s.dryRuns n) (s.applied n)
  task : ∀ n ∈ s.links, Tells (s.rows n) (s.dryRuns n) (s.tasks n)
  ran : ∀ n ∈ s.links, s.applied n ≠ 0 → s.Passed
  schema : s.schemaApplied = if s.schemaVersion = s.jobId then 1 else 0
  schemaRan : s.schemaVersion = s.jobId → s.Passed
  finished : s.jobStatus = .runSuccess →
    (∀ n ∈ s.links, s.tasks n = .success) ∧ s.schemaVersion = s.jobId
  worker : ∀ n w, s.workers n = some w → s.WorkerOk n w
  batch : ∀ p ∈ s.batch, s.BatchOk p.1 p.2
  batchNodup : (s.batch.map Prod.fst).Nodup
  seen : ∀ n ∈ s.links, Tells (s.rows n) (s.dryRuns n) (s.seen n)
  result : ∀ r ∈ s.results, r.1 ∈ s.links ∧ Tells (s.rows r.1) (s.dryRuns r.1) r.2.2
  count : ∀ job, s.job = some job →
    ∀ status, job.progress status = s.links.countP (fun n => s.seen n == status)
  leads : s.job.isSome = true → Leads s.tasks s.seen s.results
  quiet : s.job = none →
    s.jobStatus.isFinished = true ∨ s.results = [] ∧ s.batch = [] ∧ ∀ n, s.workers n = none
  job : ∀ job, s.job = some job → s.Evidence job.status
  waiting : ∀ w, s.jobWorker = some w → s.job.isSome = true
  jobWorker : ∀ w, s.jobWorker = some w → s.JobWorkerOk w

/-! ### What `enqueue_work` comes to -/

/-- What `maybe_step_job` asks of the progress of the job before it sends for a step. -/
def Warrants (job : Job) : JobStep → Prop
  | .dryRunFailure => job.progress .dryRunFailure ≠ 0
  | .dryRunSuccess => job.progressAll .dryRunSuccess = true
  | .waitingRun => True
  | .failure => job.progressAll .failure = true
  | .runSuccess => job.progressAll .success = true

/-- Whether `maybe_step_job` returns the permit, for `enqueue_task`. -/
def enqueues (job : Job) : Bool :=
  match job.status with
  | .waitingDryRun => job.progress .dryRunFailure == 0 && !job.progressAll .dryRunSuccess
  | .dryRunFailure => !job.progressAll .failure
  | .waitingRun => job.progress .failure == 0 && !job.progressAll .success
  | .dryRunSuccess | .runSuccess | .runFailure | .waitingTransition => false

/-- A task, a step of the job, nothing, or the end of the scheduler. -/
inductive Works (s : Sys ν) (job : Job) (loads : Bool) : Sys ν → Prop
  | enqueues : enqueues job = true → Works s job loads (s.enqueueTask job loads)
  | steps (step : JobStep) : enqueues job = false → step.fallback = job.status →
    Warrants job step → Works s job loads (s.spawnJob job step)
  | waits : enqueues job = false → job.status = .waitingTransition → Works s job loads s
  | stops : enqueues job = false →
    job.status.isFinished = true ∨ job.status = .waitingRun ∧ job.progress .failure ≠ 0 →
    Works s job loads s.panic

theorem works (s : Sys ν) (job : Job) (loads : Bool) : s.Works job loads (s.work job loads) := by
  obtain ⟨status, progress⟩ := job
  cases status with
  | waitingDryRun =>
    simp only [work]
    split
    · next hfail => exact .steps .dryRunFailure (by simp [enqueues, hfail]) rfl hfail
    rename_i hfail
    split
    · next hall => exact .steps .dryRunSuccess (by simp [enqueues, hall]) rfl hall
    · next hall => exact .enqueues (by simp_all [enqueues])
  | dryRunSuccess => exact .steps .waitingRun rfl rfl trivial
  | dryRunFailure =>
    simp only [work]
    split
    · next hall => exact .steps .failure (by simp [enqueues, hall]) rfl hall
    · next hall => exact .enqueues (by simp [enqueues, hall])
  | waitingRun =>
    simp only [work]
    split
    · next hfail => exact .stops (by simp [enqueues, hfail]) (Or.inr ⟨rfl, hfail⟩)
    rename_i hfail
    split
    · next hall => exact .steps .runSuccess (by simp [enqueues, hall]) rfl hall
    · next hall => exact .enqueues (by simp_all [enqueues])
  | waitingTransition => exact .waits rfl rfl
  | runSuccess | runFailure => exact .stops rfl (Or.inl rfl)

/-! ### Steps of the scheduler -/

omit [DecidableEq ν] in
theorem tasks_ne_of_progress (h : s.progress status = 0)
    (hn : n ∈ s.links) : s.tasks n ≠ status := by
  intro heq
  have hnone := countP_eq_zero.1 h n hn
  rw [heq] at hnone
  exact hnone (beq_self_eq_true _)

variable (h : s.Inv)
include h

theorem Inv.passed_of_tells (hn : n ∈ s.links)
    (htells : Tells (s.rows n) (s.dryRuns n) status)
    (hstatus : status ≠ .enqueued ∧ status ≠ .dryRunFailure ∧ status ≠ .failure) :
    s.dryRuns n = [true] := by
  cases status with
  | enqueued => exact absurd rfl hstatus.1
  | dryRunSuccess => exact htells
  | dryRunFailure => exact absurd rfl hstatus.2.1
  | run => exact htells.elim
  | success =>
    have hrow := h.row n hn
    have hs : s.rows n = some .success := htells
    rw [hs] at hrow
    generalize s.dryRuns n = runs at hrow ⊢
    generalize s.applied n = k at hrow
    cases hrow
    rfl
  | failure => exact absurd rfl hstatus.2.2

theorem Inv.evidence_statusFromProgress :
    s.Evidence (statusFromProgress s.progress) := by
  unfold statusFromProgress
  split
  · next hfail =>
    obtain ⟨n, hn, hstatus⟩ := countP_pos_iff.1 (Nat.pos_of_ne_zero hfail)
    have htells := h.task n hn
    rw [eq_of_beq hstatus] at htells
    exact ⟨n, hn, htells⟩
  · next hdry =>
    split
    · trivial
    rename_i hfail
    split
    · trivial
    rename_i henq
    split
    · intro n hn
      refine h.passed_of_tells hn (h.task n hn) ⟨?_, ?_, ?_⟩
      · exact tasks_ne_of_progress (Decidable.not_not.1 henq) hn
      · exact tasks_ne_of_progress (Decidable.not_not.1 hdry) hn
      · exact tasks_ne_of_progress (Decidable.not_not.1 hfail) hn
    · split <;> trivial

theorem Inv.load (hjob : s.job = none) : s.load.Inv := by
  unfold Sys.load
  split
  · exact h
  rename_i hfin
  obtain ⟨hresults, -, -⟩ := (h.quiet hjob).resolve_left hfin
  have hnone : ∀ w, s.jobWorker ≠ some w := by
    intro w hw
    have := h.waiting w hw
    simp [hjob] at this
  exact
    { h with
      worker := fun n w hw => { h.worker n w hw with }
      batch := fun p hp => { h.batch p hp with }
      seen := h.task
      count := by
        rintro job ⟨⟩ status
        rfl
      leads := fun _ => by
        rw [hresults]
        exact rfl
      quiet := nofun
      job := by
        rintro job ⟨⟩
        exact h.evidence_statusFromProgress
      waiting := fun w hw => absurd hw (hnone w)
      jobWorker := fun w hw => absurd hw (hnone w) }

theorem Inv.spawnJob (hjob : s.job = some job)
    (hstep : s.StepEvidence step) : (s.spawnJob job step).Inv :=
  { h with
    worker := fun n w hw => { h.worker n w hw with }
    batch := fun p hp => { h.batch p hp with }
    count := by
      rintro job' ⟨⟩ status
      exact h.count job hjob status
    leads := fun _ => h.leads (by rw [hjob]; rfl)
    quiet := nofun
    job := by
      rintro job' ⟨⟩
      trivial
    waiting := fun _ _ => rfl
    jobWorker := by
      rintro w ⟨⟩
      exact ⟨hstep, nofun, nofun⟩ }

theorem Inv.panic : s.panic.Inv :=
  { h with
    worker := fun n w hw => { h.worker n w hw with }
    batch := fun p hp => { h.batch p hp with }
    jobWorker := fun w hw => { h.jobWorker w hw with } }

omit h

omit [DecidableEq ν] in
theorem unfinished_of_wanted {jobStatus : JobStatus}
    (h : wanted jobStatus status = true) : status.isFinished = false := by
  cases jobStatus <;> cases status <;> first | rfl | cases h

omit [DecidableEq ν] in
theorem mem_nextBatch {status : JobStatus} (h : n ∈ s.nextBatch status) :
    n ∈ s.links ∧ (s.tasks n).isFinished = false ∧ s.enqueued n = false := by
  have hmem := mem_filter.1 (mem_of_mem_take h)
  obtain ⟨hwanted, henq⟩ := Bool.and_eq_true_iff.1 hmem.2
  exact ⟨hmem.1, unfinished_of_wanted hwanted, by simpa using henq⟩

theorem Inv.fetch (h : s.Inv) (hjob : s.job.isSome = true) (status : JobStatus) :
    (s.fetch status).Inv :=
  { h with
    worker := fun n w hw =>
      { h.worker n w hw with
        enqueued := by
          show (s.enqueued n || _) = true
          rw [(h.worker n w hw).enqueued, Bool.true_or] }
    batch := by
      intro p hp
      obtain ⟨n, hn, rfl⟩ := mem_map.1 (mem_reverse.1 hp)
      obtain ⟨hlinks, hfin, henq⟩ := mem_nextBatch hn
      refine ⟨hlinks, rfl, hfin, ?_, ?_⟩
      · show (_ || decide (n ∈ s.nextBatch status)) = true
        rw [decide_eq_true hn, Bool.or_true]
      · -- a task with a worker is in the table of enqueued tasks, and is not taken
        show s.workers n = none
        cases hw : s.workers n with
        | none => rfl
        | some w =>
          simp [(h.worker n w hw).enqueued] at henq
    batchNodup := by
      show (((s.nextBatch status).map fun n => (n, s.tasks n)).reverse.map Prod.fst).Nodup
      rw [map_reverse, map_map, nodup_reverse]
      have hid : (Prod.fst ∘ fun n => (n, s.tasks n)) = id := rfl
      rw [hid, map_id]
      exact ((h.nodup.filter _).sublist (take_sublist _ _))
    quiet := fun hnone => by
      have hnone : s.job = none := hnone
      simp [hnone] at hjob
    jobWorker := fun w hw => { h.jobWorker w hw with } }

theorem Inv.spawnTask (h : s.Inv) (hjob : s.job = some job) (loads : Bool) :
    (s.spawnTask job loads).Inv := by
  have hquiet : s.job ≠ none := by rw [hjob]; nofun
  unfold Sys.spawnTask
  split
  · exact h
  rename_i n status rest hbatch
  have hhead := h.batch (n, status) (by rw [hbatch]; exact mem_cons_self ..)
  have hnodup := h.batchNodup
  rw [hbatch] at hnodup
  obtain ⟨hnot, hrest⟩ := nodup_cons.1 hnodup
  have htail : ∀ p ∈ rest, s.BatchOk p.1 p.2 ∧ p.1 ≠ n := by
    intro p hp
    refine ⟨h.batch p (by rw [hbatch]; exact mem_cons_of_mem _ hp), ?_⟩
    intro hpn
    exact hnot (mem_map.2 ⟨p, hp, hpn⟩)
  split
  · exact
      { h with
        worker := by
          intro m w hw
          rcases of_update_eq_some hw with ⟨rfl, ⟨⟩⟩ | ⟨hm, hw⟩
          · exact ⟨hhead.mem, hhead.task, hhead.unfinished, hhead.enqueued, h.job job hjob, nofun⟩
          · exact { h.worker m w hw with }
        batch := fun p hp =>
          { (htail p hp).1 with
            free := (Function.update_of_ne (htail p hp).2 ..).trans (htail p hp).1.free }
        batchNodup := hrest
        quiet := fun hnone => absurd hnone hquiet
        jobWorker := fun w hw => { h.jobWorker w hw with } }
  · exact
      { h with
        worker := fun m w hw => { h.worker m w hw with }
        batch := fun p hp => { (htail p hp).1 with }
        batchNodup := hrest
        quiet := fun hnone => absurd hnone hquiet
        jobWorker := fun w hw => { h.jobWorker w hw with } }

theorem Inv.enqueueTask (h : s.Inv) (hjob : s.job = some job) (loads : Bool) :
    (s.enqueueTask job loads).Inv := by
  unfold Sys.enqueueTask
  split
  · exact (h.fetch (by rw [hjob]; rfl) job.status).spawnTask hjob loads
  · exact h.spawnTask hjob loads

theorem progress_eq_zero_of_all {status other : TaskStatus}
    (h : job.progressAll status = true) (hne : other ≠ status) : job.progress other = 0 := by
  have hmem : other ∈ TaskStatus.all := by cases other <;> decide
  have hother := all_eq_true.1 h other hmem
  rcases Bool.or_eq_true_iff.1 hother with heq | hzero
  · exact absurd (eq_of_beq heq) hne
  · exact eq_of_beq hzero

include h

theorem Inv.seen_of_all (hjob : s.job = some job) (hall : job.progressAll status = true)
    (hn : n ∈ s.links) : s.seen n = status := by
  refine Decidable.byContradiction fun hne => ?_
  have hzero := progress_eq_zero_of_all hall hne
  rw [h.count job hjob] at hzero
  exact countP_eq_zero.1 hzero n hn (beq_self_eq_true _)

theorem Inv.seen_of_progress (hjob : s.job = some job) (hne : job.progress status ≠ 0) :
    ∃ n ∈ s.links, s.seen n = status := by
  rw [h.count job hjob] at hne
  obtain ⟨n, hn, heq⟩ := countP_pos_iff.1 (Nat.pos_of_ne_zero hne)
  exact ⟨n, hn, eq_of_beq heq⟩

theorem Inv.tasks_success (hjob : s.job = some job)
    (hall : job.progressAll .success = true) (hn : n ∈ s.links) : s.tasks n = .success :=
  (h.leads (by rw [hjob]; rfl)).success (h.seen_of_all hjob hall hn)

theorem Inv.work (hjob : s.job = some job) (loads : Bool) :
    (s.work job loads).Inv := by
  have hev := h.job job hjob
  have hworks := s.works job loads
  generalize s.work job loads = s' at hworks ⊢
  cases hworks with
  | enqueues => exact h.enqueueTask hjob loads
  | steps step _ hfall hwarrants =>
    refine h.spawnJob hjob ?_
    rw [← hfall] at hev
    cases step with
    | failure | waitingRun => exact hev
    | dryRunFailure =>
      obtain ⟨n, hn, hseen⟩ := h.seen_of_progress hjob hwarrants
      have htells := h.seen n hn
      rw [hseen] at htells
      exact ⟨n, hn, htells⟩
    | dryRunSuccess => trivial
    | runSuccess => exact ⟨hev, fun n hn => h.tasks_success hjob hwarrants hn⟩
  | waits => exact h
  | stops => exact h.panic

theorem Inv.joinTask {old new : TaskStatus}
    {rest : List (ν × TaskStatus × TaskStatus)} (hresults : s.results = (n, old, new) :: rest) :
    (s.joinTask n old new rest).Inv := by
  unfold Sys.joinTask
  split
  · exact h.panic
  rename_i job hjob
  have hlead := h.leads (by rw [hjob]; rfl)
  rw [hresults] at hlead
  obtain ⟨rfl, -, hlead⟩ := hlead
  obtain ⟨hn, htells⟩ := h.result (n, s.seen n, new) (by rw [hresults]; exact mem_cons_self ..)
  exact
    { h with
      worker := fun m w hw => { h.worker m w hw with }
      batch := fun p hp => { h.batch p hp with }
      seen := (Function.forall_update_iff s.seen fun m seen => m ∈ s.links → Tells _ _ seen).2
        ⟨fun _ => htells, fun m _ => h.seen m⟩
      result := fun r hr => h.result r (by rw [hresults]; exact mem_cons_of_mem _ hr)
      count := by
        rintro job' ⟨⟩ status
        exact progress_update h.nodup hn (h.count job hjob) new status
      leads := fun _ => hlead
      quiet := nofun
      job := by
        rintro job' ⟨⟩
        exact h.job job hjob
      waiting := fun _ _ => rfl
      jobWorker := fun w hw => { h.jobWorker w hw with } }

theorem Inv.joinJob {status : JobStatus}
    (hworker : s.jobWorker = some ⟨step, .done status⟩) : (s.joinJob status).Inv := by
  obtain ⟨hev, hfinished⟩ := (h.jobWorker _ hworker).done status rfl
  unfold Sys.joinJob
  split
  · exact h.panic
  rename_i job hjob
  split
  · next hfin =>
    exact
      { h with
        worker := fun m w hw => { h.worker m w hw with }
        batch := fun p hp => { h.batch p hp with }
        count := nofun
        leads := nofun
        quiet := fun _ => Or.inl (by
          rw [hfinished hfin, hfin])
        job := nofun
        waiting := nofun
        jobWorker := nofun }
  · exact
      { h with
        worker := fun m w hw => { h.worker m w hw with }
        batch := fun p hp => { h.batch p hp with }
        count := by
          rintro job' ⟨⟩ status
          exact h.count job hjob status
        leads := fun _ => h.leads (by rw [hjob]; rfl)
        quiet := nofun
        job := by
          rintro job' ⟨⟩
          exact hev
        waiting := nofun
        jobWorker := nofun }

theorem Inv.crash : s.crash.Inv :=
  { h with
    worker := nofun
    batch := nofun
    batchNodup := nodup_nil
    result := nofun
    count := nofun
    leads := nofun
    quiet := fun _ => Or.inr ⟨rfl, rfl, fun _ => rfl⟩
    job := nofun
    waiting := nofun
    jobWorker := nofun }

end Sys

end SqlAnywhere.Server.Migration
