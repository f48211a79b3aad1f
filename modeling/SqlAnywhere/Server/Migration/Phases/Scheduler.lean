import SqlAnywhere.Server.Migration.Phases

/-!
# The scheduler keeps the phases of a migration job

* `Leads.kept` — a status that no result on its way starts from is that of the metastore
* `Sys.Phased.quiet_of_all` — a step of the job is made when no task is out
* `Sys.Phased.work`, `Sys.Phased.joinTask`, `Sys.Phased.joinJob`, `Sys.Phased.crash` — the steps of
  the scheduler, and a restart
-/

namespace SqlAnywhere.Server.Migration

open Function List

section Leads

variable {ν : Type*} [DecidableEq ν] {tasks seen : ν → TaskStatus}
  {results : List (ν × TaskStatus × TaskStatus)} {n : ν}

theorem Leads.kept (h : Leads tasks seen results) (hn : ∀ r ∈ results, r.2.1 ≠ seen n) :
    tasks n = seen n := by
  induction results generalizing seen with
  | nil =>
    obtain rfl : seen = tasks := h
    rfl
  | cons r results ih =>
    obtain ⟨m, old, new⟩ := r
    obtain ⟨rfl, -, hrest⟩ := h
    have hne : n ≠ m := by
      rintro rfl
      exact hn _ (mem_cons_self ..) rfl
    have hsame : update seen m new n = seen n := update_of_ne hne ..
    rw [← hsame]
    refine ih hrest fun r hr => ?_
    rw [hsame]
    exact hn r (mem_cons_of_mem _ hr)

theorem Leads.unfinished (h : Leads tasks seen results) {r : ν × TaskStatus × TaskStatus}
    (hr : r ∈ results) : r.2.1.isFinished = false := by
  induction results generalizing seen with
  | nil => cases hr
  | cons r' results ih =>
    obtain ⟨m, old, new⟩ := r'
    obtain ⟨-, hold, hrest⟩ := h
    rcases mem_cons.1 hr with rfl | hr
    · exact hold
    · exact ih hrest hr

end Leads

namespace Sys

variable {ν : Type*} [DecidableEq ν] {s s' : Sys ν} {n : ν} {passes : ν → Bool} {job : Job}
  {status : TaskStatus} {step : JobStep}

omit [DecidableEq ν] in
theorem Starts.takes_phase {p : JobStatus} {w : TaskWorker} (h : s.Starts p n w) :
    Takes p w.oldStatus := by
  rcases h.job with heq | ⟨rfl, -⟩
  · rw [← heq]
    exact h.takes
  · trivial

theorem takes_of_wanted {p : JobStatus} (h : wanted p status = true) :
    Takes p status := by
  cases p with
  | waitingDryRun | waitingRun => exact eq_of_beq h
  | dryRunFailure => trivial
  | dryRunSuccess | runSuccess | runFailure | waitingTransition => cases h

variable (h : s.Phased passes)
include h

section

omit [DecidableEq ν]

theorem Phased.stepOk_waitingRun (hp : s.phase = some .dryRunSuccess) :
    s.StepOk .waitingRun := by
  refine ⟨(h.phase _ hp).stands, ?_, ?_, ?_⟩
  · exact eq_nil_iff_forall_not_mem.2 fun r hr => h.results _ hp r hr
  · exact eq_nil_iff_forall_not_mem.2 fun b hmem => h.batch _ hp b hmem
  · intro n
    cases hwn : s.workers n with
    | none => rfl
    | some w => exact (h.worker _ hp n w hwn).takes_phase.elim

theorem Phased.jobWorker_none (hjob : s.job = some job)
    (htransit : job.status ≠ .waitingTransition) : s.jobWorker = none := by
  cases hw : s.jobWorker with
  | none => rfl
  | some w => exact absurd ((h.transit job hjob).2 (by rw [hw]; rfl)) htransit

end

variable (hb : s.Bookkept) (hjob : s.job = some job) (hw : s.jobWorker = none)
include hjob hw

omit [DecidableEq ν] in
theorem Phased.spawnJob (hfall : step.fallback = job.status) (hok : s.StepOk step) :
    (s.spawnJob job step).Phased passes := by
  have hphase : ∀ p, (s.spawnJob job step).phase = some p → s.phase = some p := by
    intro p hp
    rw [phase_of_job hjob hw, ← hfall]
    exact hp
  exact
    { h with
      transit := by
        rintro job' ⟨⟩
        exact ⟨fun _ => rfl, fun _ => rfl⟩
      idle := nofun
      phase := fun p hp => { h.phase p (hphase p hp) with }
      worker := fun p hp n w hwn => { h.worker p (hphase p hp) n w hwn with }
      batch := fun p hp => h.batch p (hphase p hp)
      results := fun p hp => h.results p (hphase p hp)
      jobWorker := by
        rintro w ⟨⟩
        exact hok
      done := nofun }

theorem Phased.fetch : (s.fetch job.status).Phased passes :=
  { h with
    idle := fun hnone => by
      have hnone : s.job = none := hnone
      simp [hjob] at hnone
    phase := fun p hp => { h.phase p hp with }
    worker := fun p hp n w hwn => { h.worker p hp n w hwn with }
    batch := by
      intro p hp b hmem
      have hp : s.phase = some p := hp
      rw [phase_of_job hjob hw] at hp
      cases hp
      obtain ⟨n, hn, rfl⟩ := mem_map.1 (mem_reverse.1 hmem)
      have hmem := (mem_filter.1 (mem_of_mem_take hn)).2
      exact takes_of_wanted (Bool.and_eq_true_iff.1 hmem).1
    jobWorker := fun w hw' => by
      have hw' : s.jobWorker = some w := hw'
      rw [hw] at hw'
      cases hw' }

include hb

/-- When the scheduler counts only tasks at a status that it takes none from, no task is out. -/
theorem Phased.quiet_of_all (status : TaskStatus) (hall : job.progressAll status = true)
    (hnot : ∀ old, old.isFinished = false → Takes job.status old → old ≠ status) :
    (∀ n ∈ s.links, s.tasks n = status) ∧ s.Quiet := by
  have hp := phase_of_job hjob hw
  have hleads := hb.leads hjob
  have hresults : s.results = [] := by
    cases hr : s.results with
    | nil => rfl
    | cons r rest =>
      have hmem : r ∈ s.results := by rw [hr]; exact mem_cons_self ..
      have hold := hnot r.2.1 (hleads.unfinished hmem) (h.results _ hp r hmem)
      rw [hr] at hleads
      exact absurd (hleads.1.symm.trans (hb.seen_of_all hjob hall (hb.result_mem hmem))) hold
  have htasks : ∀ n ∈ s.links, s.tasks n = status := by
    intro n hn
    rw [hresults] at hleads
    have heq : s.seen = s.tasks := hleads
    rw [← heq, hb.seen_of_all hjob hall hn]
  refine ⟨htasks, hresults, ?_, ?_⟩
  · rw [eq_nil_iff_forall_not_mem]
    intro b hmem
    have hok := hb.batch hmem
    exact hnot b.2 hok.unfinished (h.batch _ hp b hmem)
      (hok.task.symm.trans (htasks b.1 hok.mem))
  · intro n
    cases hwn : s.workers n with
    | none => rfl
    | some w =>
      have hok := hb.worker hwn
      exact absurd (hok.task.symm.trans (htasks n hok.mem))
        (hnot w.oldStatus hok.unfinished (h.worker _ hp n w hwn).takes_phase)

theorem Phased.spawnTask (loads : Bool) : (s.spawnTask job loads).Phased passes := by
  have hp₀ := phase_of_job hjob hw
  have hidle : s.job ≠ none := by rw [hjob]; nofun
  have hstill : ∀ w, s.jobWorker ≠ some w := by rw [hw]; nofun
  unfold Sys.spawnTask
  split
  · exact h
  rename_i n status rest hbatch
  have hhead : (n, status) ∈ s.batch := by rw [hbatch]; exact mem_cons_self ..
  have hrest : ∀ b ∈ rest, b ∈ s.batch := by
    intro b hmem
    rw [hbatch]
    exact mem_cons_of_mem _ hmem
  split
  · exact
      { h with
        idle := fun hnone => absurd hnone hidle
        phase := fun p hp => { h.phase p hp with }
        worker := by
          intro p hp m w hwm
          have hsame : some job.status = some p := hp₀.symm.trans hp
          rcases of_update_eq_some hwm with ⟨rfl, ⟨⟩⟩ | ⟨-, hwm⟩
          · cases hsame
            exact ⟨Or.inl rfl, h.batch _ hp₀ _ hhead,
              fun hdry => ((h.phase _ hp₀).rows hdry m (hb.batch hhead).mem).1, nofun⟩
          · exact { h.worker p hp m w hwm with }
        batch := fun p hp b hmem => h.batch p hp b (hrest b hmem)
        jobWorker := fun w hw' => absurd hw' (hstill w) }
  · exact
      { h with
        idle := fun hnone => absurd hnone hidle
        phase := fun p hp => { h.phase p hp with }
        worker := fun p hp m w hwm => { h.worker p hp m w hwm with }
        batch := fun p hp b hmem => h.batch p hp b (hrest b hmem)
        jobWorker := fun w hw' => absurd hw' (hstill w) }

omit h hw in
theorem Bookkept.fetch (status : JobStatus) : (s.fetch status).Bookkept := by
  obtain ⟨j, v, k, hinv⟩ := hb
  exact ⟨j, v, k, hinv.fetch (by show s.job.isSome = true; rw [hjob]; rfl) status⟩

theorem Phased.enqueueTask (loads : Bool) : (s.enqueueTask job loads).Phased passes := by
  unfold Sys.enqueueTask
  split
  · exact (h.fetch hjob hw).spawnTask (hb.fetch hjob job.status) hjob hw loads
  · exact h.spawnTask hb hjob hw loads

omit hw

theorem Phased.work (loads : Bool) : (s.work job loads).Phased passes := by
  have hleads := hb.leads hjob
  have hworks := s.works job loads
  generalize s.work job loads = s' at hworks ⊢
  cases hworks with
  | enqueues henq =>
    have hw := h.jobWorker_none hjob fun heq => by simp [enqueues, heq] at henq
    exact h.enqueueTask hb hjob hw loads
  | steps step _ hfall hwarrants =>
    have hw := h.jobWorker_none hjob (hfall ▸ step.fallback_ne)
    have hp := phase_of_job hjob hw
    refine h.spawnJob hjob hw hfall ?_
    have hquiet := h.quiet_of_all hb hjob hw
    rw [← hfall] at hp hquiet
    cases step with
    | dryRunFailure =>
      obtain ⟨n, hn, hseen⟩ := hb.seen_of_progress hjob hwarrants
      refine ⟨n, hn, hseen, ?_⟩
      rw [← hseen]
      refine hleads.kept fun r hr => ?_
      have hold : r.2.1 = .enqueued := h.results _ hp r hr
      rw [hold, hseen]
      simp
    | dryRunSuccess =>
      refine hquiet _ hwarrants fun old _ htakes => ?_
      obtain rfl : old = .enqueued := htakes
      simp
    | waitingRun => exact h.stepOk_waitingRun hp
    | failure | runSuccess =>
      refine hquiet _ hwarrants ?_
      rintro old hold - rfl
      cases hold
  | waits => exact h
  | stops _ hstops =>
    have hw := h.jobWorker_none hjob fun heq => by simp [heq, JobStatus.isFinished] at hstops
    have hok := h.phase _ (phase_of_job hjob hw)
    rcases hstops with hfin | ⟨hstatus, hfail⟩
    · cases hstatus : job.status <;> simp [hstatus, JobStatus.isFinished] at hfin
      · exact absurd hstatus hok.inferred.1
      · exact absurd hstatus hok.inferred.2.1
    · -- a task that has failed: there is none in this phase
      obtain ⟨n, hn, hseen⟩ := hb.seen_of_progress hjob hfail
      have htask : s.tasks n = s.seen n := by
        refine hleads.kept fun r hr heq => ?_
        have hold := hleads.unfinished hr
        rw [heq, hseen] at hold
        cases hold
      have hstands := hok.stands n hn
      rw [hstatus, htask, hseen] at hstands
      rcases hstands with heq | heq <;> cases heq

omit hb hjob h

theorem Phased.joinTask (h : s.Phased passes) {old new : TaskStatus}
    {rest : List (ν × TaskStatus × TaskStatus)} (hb : s.Bookkept)
    (hresults : s.results = (n, old, new) :: rest) : (s.joinTask n old new rest).Phased passes := by
  have hhead : (n, old, new) ∈ s.results := by rw [hresults]; exact mem_cons_self ..
  unfold Sys.joinTask
  split
  · next hjob =>
    simp [(h.idle hjob).1.1] at hhead
  · next job hjob =>
    have hleads := hb.leads hjob
    rw [hresults] at hleads
    obtain ⟨hold, -, -⟩ := hleads
    -- a dry run that has been seen to fail is not the one that is joined
    have hseen : s.phase = some .waitingDryRun → ∀ m, s.seen m = .dryRunFailure →
        update s.seen n new m = .dryRunFailure := by
      intro hp m hm
      have htakes : old = .enqueued := h.results _ hp _ hhead
      have hne : m ≠ n := by
        rintro rfl
        simp [hold, htakes] at hm
      rw [update_of_ne hne, hm]
    have hphase : ∀ p, Sys.phase { s with
        results := rest
        seen := update s.seen n new
        job := some { job with progress := job.progress.move old new } } = some p →
        s.phase = some p := by
      intro p hp
      cases hjw : s.jobWorker with
      | none | some =>
        simp only [Sys.phase, hjob, hjw] at hp ⊢
        exact hp
    exact
      { h with
        transit := by
          rintro job' ⟨⟩
          exact h.transit job hjob
        idle := by rintro ⟨⟩
        phase := fun p hp =>
          { h.phase p (hphase p hp) with
            waits := fun hdry => by
              have hp := hphase p hp
              rcases (h.phase p hp).waits hdry with hjob | hjob | ⟨hjob, m, hm, hfail⟩
              · exact Or.inl hjob
              · exact Or.inr (Or.inl hjob)
              · rw [hdry] at hp
                exact Or.inr (Or.inr ⟨hjob, m, hm, hseen hp m hfail⟩) }
        worker := fun p hp m w hwm => { h.worker p (hphase p hp) m w hwm with }
        batch := fun p hp => h.batch p (hphase p hp)
        results := fun p hp r hr =>
          h.results p (hphase p hp) r (by rw [hresults]; exact mem_cons_of_mem _ hr)
        jobWorker := by
          intro w hw
          have hw : s.jobWorker = some w := hw
          have hstep := h.jobWorker w hw
          have hp := hb.phase_of_worker hw
          obtain ⟨step, phase⟩ := w
          cases step with
          | dryRunFailure =>
            obtain ⟨m, hm, hfail, htask⟩ := hstep
            exact ⟨m, hm, hseen hp m hfail, htask⟩
          | failure | waitingRun | dryRunSuccess | runSuccess =>
            obtain ⟨-, hnil, -⟩ := hstep
            rw [hnil] at hhead
            cases hhead }

section

omit [DecidableEq ν]

/-- The status that is joined goes with the databases. -/
theorem Phased.phaseOk_target (h : s.Phased passes) (hp : s.phase = some step.fallback)
    (hstep : s.StepOk step) (hstatus : s.jobStatus = step.target)
    (hfin : step.target.isFinished = false) : s.PhaseOk step.target := by
  cases step with
  | failure | runSuccess => cases hfin
  | waitingRun =>
    exact ⟨fun n hn => Or.inl (hstep.1 n hn), by rintro ⟨⟩, by rintro ⟨⟩, by rintro ⟨⟩, by decide⟩
  | dryRunSuccess => exact ⟨hstep.1, by rintro ⟨⟩, by rintro ⟨⟩, by rintro ⟨⟩, by decide⟩
  | dryRunFailure =>
    obtain ⟨m, hm, -, htask⟩ := hstep
    refine ⟨fun n hn => ?_, by rintro ⟨⟩, by rintro ⟨⟩, fun _ => ⟨⟨m, hm, Or.inl htask⟩, Or.inl hstatus⟩,
      by decide⟩
    intro hs
    have hstands : s.tasks n = _ ∨ s.tasks n = _ ∨ s.tasks n = _ := (h.phase _ hp).stands n hn
    rw [hs] at hstands
    rcases hstands with heq | heq | heq <;> cases heq

/-- All steps of the job but one are made while no task is out. -/
theorem StepOk.quiet (h : s.StepOk step) (hne : step ≠ .dryRunFailure) :
    s.Quiet := by
  cases step with
  | dryRunFailure => exact absurd rfl hne
  | failure | waitingRun | dryRunSuccess | runSuccess => exact h.2

theorem Phased.moveOn (h : s.Phased passes) {status : JobStatus}
    (hok : s.PhaseOk status) (hworker : ∀ n w, s.workers n = some w → s.Starts status n w)
    (hbatch : ∀ b ∈ s.batch, Takes status b.2) (hresults : ∀ r ∈ s.results, Takes status r.2.1) :
    { s with job := some { job with status := status }, jobWorker := none }.Phased passes := by
  have hphase : ∀ p, Sys.phase { s with
      job := some { job with status := status }, jobWorker := none } = some p → status = p :=
    fun p hp => Option.some.inj hp
  exact
    { h with
      transit := by
        rintro job' ⟨⟩
        exact ⟨fun heq => absurd heq hok.inferred.2.2, nofun⟩
      idle := nofun
      phase := by
        intro p hp
        obtain rfl := hphase p hp
        exact { hok with }
      worker := by
        intro p hp n w hw
        obtain rfl := hphase p hp
        exact { hworker n w hw with }
      batch := by
        intro p hp
        obtain rfl := hphase p hp
        exact hbatch
      results := by
        intro p hp
        obtain rfl := hphase p hp
        exact hresults
      jobWorker := nofun
      done := nofun }

end

theorem Phased.joinJob (h : s.Phased passes) (hb : s.Bookkept)
    {status : JobStatus} (hw : s.jobWorker = some ⟨step, .done status⟩) :
    (s.joinJob status).Phased passes := by
  have hstep := h.jobWorker _ hw
  unfold Sys.joinJob
  split
  · next hnone =>
    simp [hb.jobWorker_none hnone] at hw
  · next job hjob =>
    have hp := hb.phase_of_worker hw
    rcases h.done step status hw with rfl | ⟨rfl, hstatus⟩
    · rw [JobStep.fallback_unfinished]
      exact h.moveOn (h.phase _ hp) (h.worker _ hp) (h.batch _ hp) (h.results _ hp)
    · split
      · next hfin =>
        have hne : step ≠ .dryRunFailure := by
          rintro rfl
          cases hfin
        exact
          { h with
            transit := by rintro _ ⟨⟩
            idle := fun _ => ⟨hstep.quiet hne, fun hunfin => by
              have hunfin : s.jobStatus.isFinished = false := hunfin
              rw [hstatus, hfin] at hunfin
              cases hunfin⟩
            phase := by rintro _ ⟨⟩
            worker := by rintro _ ⟨⟩
            batch := by rintro _ ⟨⟩
            results := by rintro _ ⟨⟩
            jobWorker := by rintro _ ⟨⟩
            done := by rintro _ _ ⟨⟩ }
      · next hfin =>
        rw [Bool.not_eq_true] at hfin
        have hok := h.phaseOk_target hp hstep hstatus hfin
        by_cases hcase : step = .dryRunFailure
        · subst hcase
          refine h.moveOn hok (fun n w hwn => ?_) (fun _ _ => trivial) (fun _ _ => trivial)
          have hstarts := h.worker _ hp n w hwn
          refine { hstarts with job := Or.inr ⟨rfl, ?_⟩ }
          rcases hstarts.job with heq | ⟨heq, -⟩
          · exact heq
          · cases heq
        · obtain ⟨hresults, hbatch, hworkers⟩ := hstep.quiet hcase
          refine h.moveOn hok (fun n w hwn => ?_) (fun b hmem => ?_) (fun r hr => ?_)
          · simp [hworkers n] at hwn
          · simp [hbatch] at hmem
          · simp [hresults] at hr

omit [DecidableEq ν] in
theorem Phased.crash (h : s.Phased passes)
    (hre : s.jobStatus.isFinished = false → s.Restartable) : s.crash.Phased passes where
  __ := h
  spared := rfl
  transit := nofun
  idle := fun _ => ⟨⟨rfl, rfl, fun _ => rfl⟩, fun hfin => { hre hfin with }⟩
  phase := nofun
  worker := nofun
  batch := nofun
  results := nofun
  jobWorker := nofun
  done := nofun

/-! ### What the scheduler leaves as it is when it sends for work -/

/-- The state after `enqueue_work`: nothing that is stored, counted or on its way to the scheduler
has changed, and no worker has more to return. -/
structure Sent (s s' : Sys ν) : Prop where
  links : s'.links = s.links
  jobStatus : s'.jobStatus = s.jobStatus
  tasks : s'.tasks = s.tasks
  rows : s'.rows = s.rows
  seen : s'.seen = s.seen
  results : s'.results = s.results
  phase : s'.phase = s.phase
  job : s'.job.isSome = s.job.isSome
  jobWorker : s'.jobWorker = s.jobWorker ∨ ∃ step, s'.jobWorker = some ⟨step, .start⟩
  workers : ∀ n w, s'.workers n = some w → s.workers n = some w ∨ w.stepped = none

omit [DecidableEq ν] in
theorem Sent.refl (s : Sys ν) : Sent s s :=
  ⟨rfl, rfl, rfl, rfl, rfl, rfl, rfl, rfl, Or.inl rfl, fun _ _ hw => Or.inl hw⟩

theorem sent_spawnTask (loads : Bool) : Sent s (s.spawnTask job loads) := by
  unfold spawnTask
  split
  · exact Sent.refl s
  split
  · refine ⟨rfl, rfl, rfl, rfl, rfl, rfl, rfl, rfl, Or.inl rfl, fun m w hw => ?_⟩
    rcases of_update_eq_some hw with ⟨-, ⟨⟩⟩ | ⟨-, hw⟩
    · exact Or.inr rfl
    · exact Or.inl hw
  · exact ⟨rfl, rfl, rfl, rfl, rfl, rfl, rfl, rfl, Or.inl rfl, fun _ _ hw => Or.inl hw⟩

theorem sent_enqueueTask (loads : Bool) : Sent s (s.enqueueTask job loads) := by
  unfold enqueueTask
  split
  · exact { sent_spawnTask (s := s.fetch job.status) loads with }
  · exact sent_spawnTask loads

omit [DecidableEq ν] in
theorem sent_spawnJob (hjob : s.job = some job) (hw : s.jobWorker = none)
    (hfall : step.fallback = job.status) : Sent s (s.spawnJob job step) := by
  refine ⟨rfl, rfl, rfl, rfl, rfl, rfl, ?_, ?_, Or.inr ⟨step, rfl⟩, fun _ _ hw => Or.inl hw⟩
  · rw [phase_of_job hjob hw, ← hfall]
    rfl
  · rw [hjob]
    rfl

omit [DecidableEq ν] in
theorem sent_panic : Sent s s.panic :=
  ⟨rfl, rfl, rfl, rfl, rfl, rfl, rfl, rfl, Or.inl rfl, fun _ _ hw => Or.inl hw⟩

theorem Phased.sent_work (h : s.Phased passes) (hjob : s.job = some job)
    (loads : Bool) : Sent s (s.work job loads) := by
  have hworks := s.works job loads
  generalize s.work job loads = s' at hworks ⊢
  cases hworks with
  | enqueues => exact sent_enqueueTask loads
  | steps step _ hfall =>
    exact sent_spawnJob hjob (h.jobWorker_none hjob (hfall ▸ step.fallback_ne)) hfall
  | waits => exact Sent.refl s
  | stops => exact sent_panic

end Sys

end SqlAnywhere.Server.Migration
