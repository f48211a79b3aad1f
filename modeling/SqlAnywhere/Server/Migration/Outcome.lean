import SqlAnywhere.Server.Migration.Errors

/-!
# What the announced outcome of a job says

While the server is up, the scheduler announces the status a step of the job has returned.  A step
that meets an error returns the status the job had before, although the metastore may already have
the new one.  An announced success or failure is what the metastore has from then on, and a job that
has failed has an error on record.

* `Reports.Told` — the invariant, which needs nothing of the runs but that the server does not stop
* `Reports.Reached` — what an announced status says, from then on
-/

namespace SqlAnywhere.Server.Migration

open Option

/-- The statuses of a job that has failed. -/
def JobStatus.Fails (status : JobStatus) : Prop := status = .dryRunFailure ∨ status = .runFailure

/-- Only the steps of a job that has failed, and the one that says so, lead to a failure. -/
theorem JobStep.fails_target {step : JobStep} (h : step.target.Fails) :
    step = .dryRunFailure ∨ step = .failure := by
  cases step with
  | dryRunFailure => exact Or.inl rfl
  | failure => exact Or.inr rfl
  | waitingRun | dryRunSuccess | runSuccess => rcases h with h | h <;> cases h

namespace Sys

variable {ν : Type*} [DecidableEq ν] {s s' : Sys ν} {n : ν}

/-- A step beside the job: its status, what the scheduler has of it and its worker stay as they
are. -/
structure Beside (s s' : Sys ν) : Prop where
  links : s'.links = s.links
  jobStatus : s'.jobStatus = s.jobStatus
  jobWorker : s'.jobWorker = s.jobWorker
  job : s'.job.map (·.status) = s.job.map (·.status)
  tasks : s.job = none → s.jobStatus.isFinished = false → s'.tasks = s.tasks

section

omit [DecidableEq ν]

theorem Beside.refl (s : Sys ν) : Beside s s := ⟨rfl, rfl, rfl, rfl, fun _ _ => rfl⟩

theorem Beside.job_none (h : Beside s s') : s'.job = none ↔ s.job = none := by
  rw [← map_eq_none_iff (f := (·.status)), h.job, map_eq_none_iff]

theorem Beside.phase (h : Beside s s') : s'.phase = s.phase := by
  have hjob := h.job
  simp only [Sys.phase, h.jobWorker]
  cases hs : s.job with
  | none => rw [h.job_none.2 hs]
  | some job =>
    cases hs' : s'.job with
    | none => rw [h.job_none.1 hs'] at hs; cases hs
    | some job' =>
      rw [hs, hs'] at hjob
      have hstatus : job'.status = job.status := some.inj hjob
      cases s.jobWorker with
      | none => exact congrArg some hstatus
      | some w => rfl

end

theorem beside_enqueueTask (job : Job) (loads : Bool) : Beside s (s.enqueueTask job loads) := by
  have hspawn : ∀ t : Sys ν, Beside t (t.spawnTask job loads) := by
    intro t
    unfold spawnTask
    split
    · exact Beside.refl t
    · split <;> exact ⟨rfl, rfl, rfl, rfl, fun _ _ => rfl⟩
  unfold enqueueTask
  split
  · exact { hspawn (s.fetch job.status) with }
  · exact hspawn s

omit [DecidableEq ν] in
theorem beside_panic : Beside s s.panic := ⟨rfl, rfl, rfl, rfl, fun _ _ => rfl⟩

theorem beside_taskTxn (w : TaskWorker) (commits migrates backsUp : Bool) :
    Beside s (s.taskTxn n w commits migrates backsUp) := by
  unfold taskTxn
  split
  · split <;> exact ⟨rfl, rfl, rfl, rfl, fun _ _ => rfl⟩
  · exact ⟨rfl, rfl, rfl, rfl, fun _ _ => rfl⟩

theorem Bookkept.panic (h : s.Bookkept) : s.panic.Bookkept := by
  obtain ⟨jobId, version, applied, hinv⟩ := h
  exact ⟨jobId, version, applied, hinv.panic⟩

theorem Bookkept.workers_none (h : s.Bookkept) (hjob : s.job = none)
    (hstatus : s.jobStatus.isFinished = false) : s.workers n = none := by
  obtain ⟨_, _, _, hinv⟩ := h
  rcases hinv.quiet hjob with hfin | ⟨-, -, hnone⟩
  · have hfin : s.jobStatus.isFinished = true := hfin
    simp [hstatus] at hfin
  · exact hnone n

theorem Bookkept.beside_taskMeta (h : s.Bookkept) {w : TaskWorker} (hw : s.workers n = some w)
    (stepped : Option TaskStatus) (stores : Bool) : Beside s (s.taskMeta n w stepped stores) := by
  cases stores with
  | false => exact ⟨rfl, rfl, rfl, rfl, fun _ _ => rfl⟩
  | true =>
    refine ⟨rfl, rfl, rfl, rfl, fun hjob hstatus => ?_⟩
    simp [h.workers_none hjob hstatus] at hw

theorem beside_joinTask (old new : TaskStatus) (rest : List (ν × TaskStatus × TaskStatus)) :
    Beside s (s.joinTask n old new rest) := by
  unfold joinTask
  cases hjob : s.job with
  | none => exact beside_panic
  | some job => exact ⟨rfl, rfl, rfl, by rw [hjob]; rfl, fun _ _ => rfl⟩

omit [DecidableEq ν] in
theorem statusFromProgress_enqueued (h : ∀ n ∈ s.links, s.tasks n = .enqueued) :
    statusFromProgress s.progress = .waitingDryRun := by
  have hzero : ∀ status, status ≠ .enqueued → s.progress status = 0 := by
    intro status hne
    by_contra hsome
    obtain ⟨n, hn, htask⟩ := progress_ne_zero.1 hsome
    exact hne (htask.symm.trans (h n hn))
  have hdry := hzero .dryRunFailure nofun
  have hfailure := hzero .failure nofun
  have hsuccess := hzero .success nofun
  have hpassed := hzero .dryRunSuccess nofun
  have hrun := hzero .run nofun
  simp [statusFromProgress, hdry, hfailure, hsuccess, hpassed, hrun]

section

omit [DecidableEq ν]

theorem beside_migrateSchema (migrates : Bool) : Beside s (s.migrateSchema migrates) := by
  unfold migrateSchema
  split
  · exact ⟨rfl, rfl, rfl, rfl, fun _ _ => rfl⟩
  · exact Beside.refl s

theorem schemaTxn_cases (w : JobWorker) (commits migrates backsUp : Bool) :
    ∃ t phase, Beside s t ∧ (phase = .migrated ∨ phase = .done w.step.fallback) ∧
      s.schemaTxn w commits migrates backsUp = { t with jobWorker := some ⟨w.step, phase⟩ } := by
  cases commits with
  | false => exact ⟨s, _, Beside.refl s, Or.inr rfl, rfl⟩
  | true =>
    cases backsUp with
    | false => exact ⟨_, _, beside_migrateSchema migrates, Or.inr rfl, rfl⟩
    | true => exact ⟨_, _, beside_migrateSchema migrates, Or.inl rfl, rfl⟩

theorem jobMeta_cases (s : Sys ν) (w : JobWorker) (stores backsUp : Bool) :
    (∃ status, (status = w.step.target ∨ status = w.step.fallback) ∧ stores = true ∧
        s.jobMeta w stores backsUp = { s with
          jobStatus := w.step.target, jobWorker := some ⟨w.step, .done status⟩ }) ∨
      (stores = true → w.step = .dryRunSuccess) ∧
        s.jobMeta w stores backsUp = { s with
          jobWorker := some ⟨w.step, .done w.step.fallback⟩ } := by
  unfold jobMeta
  cases stores with
  | false => exact Or.inr ⟨nofun, rfl⟩
  | true =>
    cases hallows : s.allows w.step with
    | true =>
      refine Or.inl ⟨if backsUp then w.step.target else w.step.fallback, ?_, rfl, rfl⟩
      cases backsUp
      · exact Or.inr rfl
      · exact Or.inl rfl
    | false =>
      refine Or.inr ⟨fun _ => ?_, rfl⟩
      by_contra hne
      simp [allows, hne] at hallows

end

end Sys

namespace Reports

open Sys (Action)

variable {ν : Type*} [DecidableEq ν] {r r' : Reports ν} {n : ν} {text : String} {status : JobStatus}
  {w : JobWorker} {job : Job} {stores backsUp : Bool}

/-- What holds of a job since it was registered, while the server is up. -/
structure Told (r : Reports ν) : Prop where
  books : r.sys.Bookkept
  unloaded : r.sys.job = none →
    r.sys.jobStatus.isFinished = true ∨ ∀ n ∈ r.sys.links, r.sys.tasks n = .enqueued
  idle : ∀ job, r.sys.job = some job → job.status ≠ .waitingTransition → r.sys.jobWorker = none
  done : ∀ step status, r.sys.jobWorker = some ⟨step, .done status⟩ →
    status = step.fallback ∨ status = step.target ∧ r.sys.jobStatus = step.target
  aborts : r.sys.phase = some .dryRunFailure → r.sys.jobStatus.Fails
  expected : ∀ phase, r.sys.jobWorker = some ⟨.dryRunFailure, phase⟩ → r.taskError ≠ none
  error : r.sys.jobStatus.Fails → r.jobError ≠ none

/-- The run has succeeded, and the scheduler knows or is about to step the job there again. -/
def Succeeded (r : Reports ν) : Prop :=
  r.sys.jobStatus = .runSuccess ∧ (r.sys.phase = none ∨ r.sys.phase = some .waitingRun)

/-- The job is given up: its tasks are being aborted, or that is done. -/
def GivenUp (r : Reports ν) : Prop :=
  r.sys.phase = some .dryRunFailure ∧ r.sys.jobStatus.Fails ∨
    r.sys.phase = none ∧ r.sys.jobStatus = .runFailure

/-- What it says that a status is announced. -/
structure Reached (r : Reports ν) (status : JobStatus) : Prop where
  succeeded : status = .runSuccess → r.Succeeded
  givenUp : status.Fails → r.GivenUp

theorem Told.idle_beside (h : r.Told) {s : Sys ν} (hs : r.sys.Beside s) (hjob : s.job = some job)
    (hstatus : job.status ≠ .waitingTransition) : r.sys.jobWorker = none := by
  have hmap := hs.job
  rw [hjob] at hmap
  obtain ⟨job, hsome, hsame⟩ := map_eq_some_iff.1 hmap.symm
  exact h.idle job hsome (by rw [hsame]; exact hstatus)

theorem Told.beside (h : r.Told) (hs : r.sys.Beside r'.sys) (hbooks : r'.sys.Bookkept)
    (htask : r.taskError ≠ none → r'.taskError ≠ none) (hjob : r'.jobError = r.jobError) :
    r'.Told where
  books := hbooks
  unloaded := by
    intro hnone
    have hnone := hs.job_none.1 hnone
    rw [hs.jobStatus]
    rcases h.unloaded hnone with hfin | htasks
    · exact Or.inl hfin
    cases hfin : r.sys.jobStatus.isFinished with
    | true => exact Or.inl rfl
    | false =>
      rw [hs.links, hs.tasks hnone hfin]
      exact Or.inr htasks
  idle := by
    intro job hjob hstatus
    rw [hs.jobWorker]
    exact h.idle_beside hs hjob hstatus
  done := by
    rw [hs.jobWorker, hs.jobStatus]
    exact h.done
  aborts := by
    rw [hs.phase, hs.jobStatus]
    exact h.aborts
  expected := by
    intro phase hw
    rw [hs.jobWorker] at hw
    exact htask (h.expected phase hw)
  error := by
    rw [hs.jobStatus, hjob]
    exact h.error

omit [DecidableEq ν] in
theorem Reached.of_eq (h : r.Reached status)
    (hstatus : r'.sys.jobStatus = r.sys.jobStatus) (hphase : r'.sys.phase = r.sys.phase) :
    r'.Reached status where
  succeeded := by
    simp only [Succeeded, hstatus, hphase]
    exact h.succeeded
  givenUp := by
    simp only [GivenUp, hstatus, hphase]
    exact h.givenUp

/-- What holds of the job still does, and what was announced stays so. -/
structure GoesOn (r r' : Reports ν) : Prop where
  told : r'.Told
  reached : ∀ status, r.Reached status → r'.Reached status

theorem Told.goesOn (h : r.Told) (hs : r.sys.Beside r'.sys) (hbooks : r'.sys.Bookkept)
    (htask : r.taskError ≠ none → r'.taskError ≠ none) (hjob : r'.jobError = r.jobError) :
    GoesOn r r' :=
  ⟨h.beside hs hbooks htask hjob, fun _ hreached => hreached.of_eq hs.jobStatus hs.phase⟩

/-! ### What is announced -/

omit [DecidableEq ν] in
theorem GivenUp.fails (h : r.GivenUp) : r.sys.jobStatus.Fails := by
  rcases h with ⟨-, hfails⟩ | ⟨-, hfailure⟩
  · exact hfails
  · exact Or.inr hfailure

/-- The step that is made after a run has succeeded is the same one again. -/
theorem Succeeded.step_eq (h : r.Succeeded) (hbooks : r.sys.Bookkept)
    (hw : r.sys.jobWorker = some w) : w.step = .runSuccess := by
  have hphase := hbooks.phase_of_worker hw
  rcases h.2 with hnone | hwaiting
  · simp [hphase] at hnone
  rw [hphase] at hwaiting
  obtain ⟨step, phase⟩ := w
  cases step with
  | runSuccess => rfl
  | failure | waitingRun | dryRunFailure | dryRunSuccess => cases hwaiting

/-- The step that is made after a job is given up is the one to its failure. -/
theorem GivenUp.step_eq (h : r.GivenUp) (hbooks : r.sys.Bookkept)
    (hw : r.sys.jobWorker = some w) : w.step = .failure := by
  have hphase := hbooks.phase_of_worker hw
  rcases h with ⟨hdry, -⟩ | ⟨hnone, -⟩
  · rw [hphase] at hdry
    obtain ⟨step, phase⟩ := w
    cases step with
    | failure => rfl
    | runSuccess | waitingRun | dryRunFailure | dryRunSuccess => cases hdry
  · simp [hphase] at hnone

/-! ### Steps of the scheduler -/

theorem Told.load (h : r.Told) (hjob : r.sys.job = none) (hbooks : r.sys.load.Bookkept) :
    GoesOn r { r.errors text .load with sys := r.sys.load } := by
  have hworker := h.books.jobWorker_none hjob
  cases hfin : r.sys.jobStatus.isFinished with
  | true =>
    simp only [errors, Sys.load, hfin, if_true]
    exact ⟨h, fun _ => id⟩
  | false =>
    have htasks : ∀ n ∈ r.sys.links, r.sys.tasks n = .enqueued := by
      rcases h.unloaded hjob with htrue | htasks
      · simp [hfin] at htrue
      · exact htasks
    have hstatus := Sys.statusFromProgress_enqueued htasks
    have hload : r.sys.load = { r.sys with
        job := some ⟨.waitingDryRun, r.sys.progress⟩, seen := r.sys.tasks } := by
      simp only [Sys.load, hfin, hstatus]
      rfl
    rw [hload] at hbooks ⊢
    have hphase : Sys.phase { r.sys with
        job := some ⟨.waitingDryRun, r.sys.progress⟩, seen := r.sys.tasks } =
          some .waitingDryRun := by
      simp only [Sys.phase, hworker]
    simp only [errors, hfin]
    refine ⟨?_, fun status hreached => ⟨?_, ?_⟩⟩
    · exact
        { books := hbooks
          unloaded := by rintro ⟨⟩
          idle := fun _ _ _ => hworker
          done := fun step status hw => h.done step status hw
          aborts := by rw [hphase]; rintro ⟨⟩
          expected := by
            intro phase hw
            have hw : r.sys.jobWorker = some _ := hw
            simp [hworker] at hw
          error := h.error }
    -- nothing that is announced is said of a job that is not finished
    · intro hstatus
      rw [(hreached.succeeded hstatus).1] at hfin
      cases hfin
    · intro hstatus
      rcases hreached.givenUp hstatus with ⟨hdry, -⟩ | ⟨-, hfailure⟩
      · simp [Sys.phase, hjob] at hdry
      · rw [hfailure] at hfin
        cases hfin

theorem Told.spawnJob (h : r.Told) (hjob : r.sys.job = some job) {step : JobStep}
    (hfall : step.fallback = job.status) (hbooks : (r.sys.spawnJob job step).Bookkept)
    (herror : step = .dryRunFailure → r.taskError ≠ none) :
    Told { r with sys := r.sys.spawnJob job step } := by
  have hworker := h.idle job hjob (hfall ▸ step.fallback_ne)
  have hphase := (Sys.sent_spawnJob hjob hworker hfall).phase
  exact
    { books := hbooks
      unloaded := nofun
      idle := by
        rintro _ ⟨⟩ hne
        exact absurd rfl hne
      done := nofun
      aborts := by
        rw [hphase]
        exact h.aborts
      expected := by
        intro phase hw
        have hstep : step = .dryRunFailure := congrArg JobWorker.step (some.inj hw)
        exact herror hstep
      error := h.error }

theorem Told.work (h : r.Told) (hjob : r.sys.job = some job) {loads : Bool}
    (hbooks : (r.sys.work job loads).Bookkept) (hexpected : r.unexpected = false) :
    GoesOn r { r with sys := r.sys.work job loads } := by
  have hworks := r.sys.works job loads
  generalize r.sys.work job loads = s at hworks hbooks ⊢
  cases hworks with
  | enqueues => exact h.goesOn (Sys.beside_enqueueTask job loads) hbooks id rfl
  | steps step _ hfall hwarrants =>
    have hworker := h.idle job hjob (hfall ▸ step.fallback_ne)
    have herror : step = .dryRunFailure → r.taskError ≠ none := by
      rintro rfl hnone
      have hfail : job.progress .dryRunFailure ≠ 0 := hwarrants
      simp [unexpected, hjob, ← hfall, JobStep.fallback, hfail, hnone] at hexpected
    have hsent := Sys.sent_spawnJob hjob hworker hfall
    exact ⟨h.spawnJob hjob hfall hbooks herror,
      fun _ hreached => hreached.of_eq hsent.jobStatus hsent.phase⟩
  | waits => exact ⟨h, fun _ => id⟩
  | stops => exact h.goesOn Sys.beside_panic hbooks id rfl

/-! ### Steps of the job -/

theorem errors_jobMeta (hw : r.sys.jobWorker = some w) (s : Sys ν) :
    { r.errors text (.jobMeta stores backsUp) with sys := s } =
      { r with
        jobError :=
          if stores = true ∧ w.step = .dryRunFailure then r.taskError.or r.jobError
          else r.jobError
        sys := s } := by
  obtain ⟨step, phase⟩ := w
  simp only [errors, hw]
  cases step <;> cases stores <;> rfl

variable (h : r.Told)
include h

theorem Told.stepped (hw : r.sys.jobWorker = some w) {s : Sys ν} (hs : r.sys.Beside s)
    {status : JobStatus} {phase : JobPhase} {jobError : Option (ν × String)}
    (hbooks : Sys.Bookkept { s with jobStatus := status, jobWorker := some ⟨w.step, phase⟩ })
    (hdone : ∀ done, phase = .done done →
      done = w.step.fallback ∨ done = w.step.target ∧ status = w.step.target)
    (haborts : w.step.fallback = .dryRunFailure → status.Fails)
    (herror : status.Fails → jobError ≠ none) :
    Told { r with
      jobError := jobError
      sys := { s with jobStatus := status, jobWorker := some ⟨w.step, phase⟩ } } where
  books := hbooks
  unloaded := by
    intro hnone
    simp [h.books.jobWorker_none (hs.job_none.1 hnone)] at hw
  idle := by
    intro job hjob hne
    simp [h.idle_beside hs hjob hne] at hw
  done := by
    rintro step done ⟨⟩
    exact hdone done rfl
  aborts := by
    intro hfails
    have hfails : Sys.phase _ = _ := hfails
    rw [hbooks.phase_of_worker rfl] at hfails
    exact haborts (some.inj hfails)
  expected := by
    intro phase hphase
    have hstep : w.step = .dryRunFailure := congrArg JobWorker.step (some.inj hphase)
    exact h.expected w.phase (by rw [hw, ← hstep])
  error := herror

theorem Told.schemaTxn (hw : r.sys.jobWorker = some w)
    (hstep : w.step = .runSuccess) {commits migrates backsUp : Bool}
    (hbooks : (r.sys.schemaTxn w commits migrates backsUp).Bookkept) :
    GoesOn r { r with sys := r.sys.schemaTxn w commits migrates backsUp } := by
  obtain ⟨s, phase, hs, hphase, heq⟩ := r.sys.schemaTxn_cases w commits migrates backsUp
  rw [heq] at hbooks ⊢
  refine ⟨h.stepped hw hs hbooks (fun done hdone => ?_) (fun hfall => ?_) (fun hfails => ?_),
    fun _ hreached => hreached.of_eq hs.jobStatus
      ((hbooks.phase_of_worker rfl).trans (h.books.phase_of_worker hw).symm)⟩
  · rcases hphase with hphase | hphase
    · cases hphase.symm.trans hdone
    · exact Or.inl (JobPhase.done.inj (hdone.symm.trans hphase))
  · rw [hstep] at hfall
    cases hfall
  · rw [hs.jobStatus] at hfails
    exact h.error hfails

theorem Told.jobMeta (hw : r.sys.jobWorker = some w)
    (hbooks : (r.sys.jobMeta w stores backsUp).Bookkept) :
    GoesOn r { r.errors text (.jobMeta stores backsUp) with
      sys := r.sys.jobMeta w stores backsUp } := by
  have hold := h.books.phase_of_worker hw
  rw [errors_jobMeta hw]
  rcases r.sys.jobMeta_cases w stores backsUp with ⟨done, hdone, hstores, heq⟩ | ⟨hstores, heq⟩
  · rw [heq] at hbooks ⊢
    have hnew := (hbooks.phase_of_worker rfl).trans hold.symm
    refine ⟨h.stepped hw (.refl _) hbooks ?_ (fun hfall => ?_) fun hfails => ?_,
      fun status hreached => ⟨fun hstatus => ?_, fun hstatus => Or.inl ?_⟩⟩
    · rintro _ ⟨⟩
      rcases hdone with hdone | hdone
      · exact Or.inr ⟨hdone, rfl⟩
      · exact Or.inl hdone
    · obtain ⟨step, phase⟩ := w
      cases step with
      | failure => exact Or.inr rfl
      | waitingRun | dryRunFailure | dryRunSuccess | runSuccess => cases hfall
    · rcases JobStep.fails_target hfails with hstep | hstep
      · rw [if_pos ⟨hstores, hstep⟩]
        have hexpected : r.taskError ≠ none := h.expected w.phase (by rw [hw, ← hstep])
        exact fun hnone => hexpected (or_eq_none_iff.1 hnone).1
      · rw [if_neg (by rw [hstep]; nofun)]
        refine h.error (h.aborts ?_)
        rw [hold, hstep]
        rfl
    · have hsucceeded := hreached.succeeded hstatus
      refine ⟨?_, ?_⟩
      · rw [hsucceeded.step_eq h.books hw]
        rfl
      · rw [hnew]
        exact hsucceeded.2
    · have hstep := (hreached.givenUp hstatus).step_eq h.books hw
      refine ⟨?_, ?_⟩
      · rw [hnew, hold, hstep]
        rfl
      · rw [hstep]
        exact Or.inr rfl
  · rw [heq] at hbooks ⊢
    have hkept : ¬ (stores = true ∧ w.step = .dryRunFailure) := by
      rintro ⟨htrue, hstep⟩
      simp [hstores htrue] at hstep
    rw [if_neg hkept]
    exact ⟨h.stepped hw (.refl _) hbooks (by rintro _ ⟨⟩; exact Or.inl rfl)
      (fun hfall => h.aborts (by rw [hold, hfall])) h.error,
      fun _ hreached => hreached.of_eq rfl ((hbooks.phase_of_worker rfl).trans hold.symm)⟩

/-- A status that is joined is not the one of a finished job unless the metastore has it. -/
theorem Told.finished {step : JobStep}
    (hw : r.sys.jobWorker = some ⟨step, .done status⟩) (hfin : status.isFinished = true) :
    status = step.target ∧ r.sys.jobStatus = step.target := by
  rcases h.done step status hw with hfall | htarget
  · simp [hfall, step.fallback_unfinished] at hfin
  · exact htarget

/-- A failed dry run that is joined is on record. -/
theorem Told.fails_of_dryRunFailure {step : JobStep}
    (hw : r.sys.jobWorker = some ⟨step, .done .dryRunFailure⟩) : r.sys.jobStatus.Fails := by
  rcases h.done step _ hw with hfall | ⟨htarget, hstatus⟩
  · refine h.aborts ?_
    rw [h.books.phase_of_worker hw, hfall]
  · rw [hstatus, ← htarget]
    exact Or.inl rfl

theorem Told.reached {step : JobStep}
    (hw : r.sys.jobWorker = some ⟨step, .done status⟩) :
    Reached { r with sys := r.sys.joinJob status } status := by
  obtain ⟨job, hjob⟩ := isSome_iff_exists.1 (h.books.waiting hw)
  constructor
  · rintro rfl
    obtain ⟨htarget, hstatus⟩ := h.finished hw rfl
    simp only [Succeeded, Sys.joinJob, hjob]
    exact ⟨hstatus.trans htarget.symm, Or.inl rfl⟩
  · rintro (rfl | rfl)
    · have hfails := h.fails_of_dryRunFailure hw
      simp only [GivenUp, Sys.joinJob, hjob]
      exact Or.inl ⟨rfl, hfails⟩
    · obtain ⟨htarget, hstatus⟩ := h.finished hw rfl
      simp only [GivenUp, Sys.joinJob, hjob]
      exact Or.inr ⟨rfl, hstatus.trans htarget.symm⟩

theorem Told.joinJob {step : JobStep}
    (hw : r.sys.jobWorker = some ⟨step, .done status⟩) (hbooks : (r.sys.joinJob status).Bookkept) :
    GoesOn r { r with sys := r.sys.joinJob status } := by
  obtain ⟨job, hjob⟩ := isSome_iff_exists.1 (h.books.waiting hw)
  have hjoined := h.reached hw
  have hdone := h.done step status hw
  refine ⟨?_, fun status' hreached => ⟨fun hstatus' => ?_, fun hstatus' => ?_⟩⟩
  · cases hfin : status.isFinished with
    | true =>
      obtain ⟨htarget, hstatus⟩ := h.finished hw hfin
      simp only [Sys.joinJob, hjob, hfin, if_true] at hbooks ⊢
      exact
        { books := hbooks
          unloaded := fun _ => Or.inl (by
            rw [hstatus, ← htarget]
            exact hfin)
          idle := by rintro _ ⟨⟩
          done := by rintro _ _ ⟨⟩
          aborts := by rintro ⟨⟩
          expected := by rintro _ ⟨⟩
          error := h.error }
    | false =>
      simp only [Sys.joinJob, hjob, hfin] at hbooks ⊢
      exact
        { books := hbooks
          unloaded := by rintro ⟨⟩
          idle := fun _ _ _ => rfl
          done := by rintro _ _ ⟨⟩
          aborts := by
            intro hphase
            have hdry : status = .dryRunFailure := some.inj hphase
            rw [hdry] at hw
            exact h.fails_of_dryRunFailure hw
          expected := by rintro _ ⟨⟩
          error := h.error }
  · have hold := hreached.succeeded hstatus'
    obtain rfl : step = .runSuccess := hold.step_eq h.books hw
    rcases hdone with rfl | ⟨rfl, -⟩
    · simp only [Succeeded, Sys.joinJob, hjob]
      exact ⟨hold.1, Or.inr rfl⟩
    · exact hjoined.succeeded rfl
  · have hold := hreached.givenUp hstatus'
    obtain rfl : step = .failure := hold.step_eq h.books hw
    rcases hdone with rfl | ⟨rfl, -⟩
    · exact hjoined.givenUp (Or.inl rfl)
    · exact hjoined.givenUp (Or.inr rfl)

omit h

/-! ### Runs of a server that stays up -/

theorem errors_taskTxn (r : Reports ν) (text : String) (n : ν) (commits migrates backsUp : Bool) :
    (r.errors text (.taskTxn n commits migrates backsUp)).taskError = r.taskError ∧
      (r.errors text (.taskTxn n commits migrates backsUp)).jobError = r.jobError := by
  simp only [errors]
  split
  · exact ⟨rfl, rfl⟩
  · unfold txnErrors
    split <;> exact ⟨rfl, rfl⟩

theorem errors_joinTask (r : Reports ν) (text : String) :
    (r.taskError ≠ none → (r.errors text .joinTask).taskError ≠ none) ∧
      (r.errors text .joinTask).jobError = r.jobError := by
  simp only [errors]
  split
  · exact ⟨fun htask hnone => htask (or_eq_none_iff.1 hnone).1, rfl⟩
  · exact ⟨id, rfl⟩

/-- The server does not stop. -/
def Up : Action ν → Prop
  | .crash => False
  | _ => True

theorem told_registered {links : List ν} (hnodup : links.Nodup) (jobId schemaVersion : ℕ) :
    (registered links jobId schemaVersion).Told where
  books := Sys.bookkept_registered hnodup jobId schemaVersion
  unloaded := fun _ => Or.inr fun _ _ => rfl
  idle := nofun
  done := nofun
  aborts := nofun
  expected := nofun
  error := by rintro (heq | heq) <;> cases heq

/-- **Every step** of a server that stays up keeps what holds of the job and what is announced. -/
theorem Told.step (h : r.Told) {a : Action ν} (hup : Up a) (hstep : r.step (a, text) = some r') :
    GoesOn r r' := by
  cases a
  case crash => exact hup.elim
  all_goals obtain ⟨s, hs, rfl⟩ := map_eq_some_iff.1 hstep
  all_goals cases Sys.step_iff.1 hs
  all_goals have hbooks := h.books.step hs
  case work loads job _ hjob =>
    cases hexpected : r.unexpected with
    | true => exact h.goesOn Sys.beside_panic h.books.panic id rfl
    | false => exact h.work hjob hbooks hexpected
  case load hjob =>
    exact h.load hjob hbooks
  case taskTxn n commits migrates backsUp w _ hw =>
    have herrors := errors_taskTxn r text n commits migrates backsUp
    refine h.goesOn (Sys.beside_taskTxn w commits migrates backsUp) hbooks ?_ herrors.2
    exact fun htask => by rw [herrors.1]; exact htask
  case taskMeta n stores w stepped _ hw =>
    exact h.goesOn (h.books.beside_taskMeta hw stepped stores) hbooks id rfl
  case schemaTxn commits migrates backsUp hw =>
    exact h.schemaTxn hw rfl hbooks
  case jobMeta stores backsUp w hw _ =>
    exact h.jobMeta hw hbooks
  case joinTask n old new rest _ hresults =>
    have herrors := errors_joinTask r text
    exact h.goesOn (Sys.beside_joinTask old new rest) hbooks herrors.1 herrors.2
  case joinJob step status _ hw =>
    exact h.joinJob hw hbooks

end Reports

end SqlAnywhere.Server.Migration
