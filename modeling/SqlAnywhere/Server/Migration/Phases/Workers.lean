import SqlAnywhere.Server.Migration.Phases.Scheduler

/-!
# The workers of a migration keep its phases

* `Sys.Phased.prepared` — the worker of a task always gets to `step_task`
* `Sys.Phased.taskTxn`, `Sys.Phased.taskMeta` — the worker of a task
* `Sys.Phased.schemaTxn`, `Sys.Phased.jobMeta` — the worker of the job
* `Sys.Phased.step` — every step of a run that is considered keeps the phases
-/

namespace SqlAnywhere.Server.Migration.Sys

open Function List Option

variable {ν : Type*} [DecidableEq ν] {s s' : Sys ν} {n : ν} {passes : ν → Bool}
  {jobStatus : JobStatus}
  {p : JobStatus} {w : TaskWorker} {status : TaskStatus}

/-! ### The worker of a task -/

omit [DecidableEq ν] in
theorem Phased.phase_of_worker (h : s.Phased passes)
    (hw : s.workers n = some w) : ∃ p, s.phase = some p := by
  cases hjob : s.job with
  | none =>
    simp [(h.idle hjob).1.2.2 n] at hw
  | some job =>
    cases hjw : s.jobWorker with
    | none => exact ⟨job.status, phase_of_job hjob hjw⟩
    | some w => exact ⟨w.step.fallback, by simp only [Sys.phase, hjob, hjw]⟩

/-- What a worker finds on the namespace when it comes to `step_task`. -/
inductive Prepared : JobStatus → TaskStatus → Prop
  | aborts : Prepared .dryRunFailure .failure
  | dryRuns : Prepared .waitingDryRun .enqueued
  | passed : Prepared .waitingDryRun .dryRunSuccess
  | failed : Prepared .waitingDryRun .dryRunFailure
  | runs : Prepared .waitingRun .run
  | ran : Prepared .waitingRun .success

section

omit [DecidableEq ν]

theorem Prepared.returns {migrates : Bool}
    (h : Prepared jobStatus status) (hrun : status = .run → migrates = true) :
    Returns jobStatus (stepTask status migrates) := by
  cases h with
  | aborts | ran => exact rfl
  | dryRuns =>
    cases migrates
    · exact Or.inr rfl
    · exact Or.inl rfl
  | passed => exact Or.inl rfl
  | failed => exact Or.inr rfl
  | runs =>
    rw [hrun rfl]
    exact rfl

/-- Only a dry run may be left over from another phase. -/
theorem Starts.phase_eq (h : s.Starts p n w)
    (hjob : w.jobStatus ≠ .waitingDryRun) : w.jobStatus = p :=
  h.job.resolve_right fun hold => hjob hold.2

theorem not_quiet (hw : s.workers n = some w) : ¬ s.Quiet := by
  rintro ⟨-, -, hnone⟩
  simp [hnone n] at hw

theorem WorkerOk.ne_finished (h : s.WorkerOk n w)
    (hfin : status.isFinished = true) : s.tasks n ≠ status := by
  rintro rfl
  simp [h.task, h.unfinished] at hfin

end

/-- A worker always gets to `step_task`. -/
theorem Phased.prepared (h : s.Phased passes) (hb : s.Bookkept) (hw : s.workers n = some w) :
    ∃ status, prepareTask w.jobStatus w.oldStatus (s.rows n) = some (some status) ∧
      Prepared w.jobStatus status := by
  obtain ⟨p, hp⟩ := h.phase_of_worker hw
  have hok := hb.worker hw
  have hstarts := h.worker p hp n w hw
  have htakes := hstarts.takes
  have hrow := hb.row hok.mem
  obtain ⟨oldStatus, jobStatus, stepped⟩ := w
  cases jobStatus with
  | dryRunFailure => exact ⟨.failure, rfl, .aborts⟩
  | waitingDryRun =>
    obtain rfl : oldStatus = .enqueued := htakes
    refine ⟨(s.rows n).getD .enqueued, rfl, ?_⟩
    have hfail := hstarts.row rfl
    have hran := h.ran n hok.mem
    generalize s.rows n = row at hrow hfail hran ⊢
    generalize s.dryRuns n = runs at hrow
    generalize s.applied n = k at hrow
    cases hrow with
    | absent => exact .dryRuns
    | passed => exact .passed
    | failed => exact .failed
    | applied =>
      rcases hran rfl n hok.mem with heq | heq
      all_goals
        simp [hok.task] at heq
    | stopped => exact absurd rfl hfail
  | waitingRun =>
    obtain rfl : oldStatus = .dryRunSuccess := htakes
    have hdry : s.dryRuns n = [true] := by
      have htells := hb.task hok.mem
      rw [hok.task] at htells
      exact htells
    obtain rfl : JobStatus.waitingRun = p := hstarts.phase_eq nofun
    have hnot : s.rows n ≠ some .failure := by
      intro hrow
      obtain ⟨m, hm, hfail⟩ := h.failed n hok.mem hrow
      have hstands : s.tasks m = _ ∨ s.tasks m = _ := (h.phase _ hp).stands m hm
      rcases hfail with heq | heq
      all_goals
        rw [heq] at hstands
        rcases hstands with heq | heq <;> cases heq
    generalize s.rows n = row at hrow hnot ⊢
    rw [hdry] at hrow
    generalize s.applied n = k at hrow
    cases hrow with
    | passed => exact ⟨.run, rfl, .runs⟩
    | applied => exact ⟨.success, rfl, .ran⟩
    | stopped => exact absurd rfl hnot
  | dryRunSuccess | runSuccess | runFailure | waitingTransition => exact htakes.elim

theorem Phased.setWorker (h : s.Phased passes) {w w' : TaskWorker} (hw : s.workers n = some w)
    (hstarts : ∀ p, s.phase = some p → s.Starts p n w') :
    (s.setWorker n (some w')).Phased passes := by
  have hbusy := not_quiet hw
  exact
    { h with
      idle := fun hjob => absurd (h.idle hjob).1 hbusy
      phase := fun p hp => { h.phase p hp with }
      worker := by
        intro p hp m w'' hwm
        rcases of_update_eq_some hwm with ⟨rfl, ⟨⟩⟩ | ⟨-, hwm⟩
        · exact { hstarts p hp with }
        · exact { h.worker p hp m w'' hwm with }
      jobWorker := by
        intro jw hjw
        have hstep := h.jobWorker jw hjw
        by_cases hcase : jw.step = .dryRunFailure
        · rw [hcase] at hstep ⊢
          exact hstep
        · exact absurd (hstep.quiet hcase) hbusy }

omit [DecidableEq ν] in
theorem Returns.of_failure (h : Returns jobStatus .failure) :
    jobStatus = .dryRunFailure := by
  cases jobStatus with
  | dryRunFailure => rfl
  | waitingDryRun => rcases h with heq | heq <;> cases heq
  | waitingRun | dryRunSuccess | runSuccess | runFailure | waitingTransition => cases h

omit [DecidableEq ν] in
theorem Returns.of_success (h : Returns jobStatus .success) :
    jobStatus = .waitingRun := by
  cases jobStatus with
  | waitingRun => rfl
  | waitingDryRun => rcases h with heq | heq <;> cases heq
  | dryRunFailure | dryRunSuccess | runSuccess | runFailure | waitingTransition => cases h

theorem Phased.commitTask (h : s.Phased passes) (hw : s.workers n = some w) {migrates : Bool}
    (hdry : status = .enqueued → migrates = passes n)
    (hret : Returns w.jobStatus (stepTask status migrates)) :
    (s.commitTask n status migrates).Phased passes := by
  obtain ⟨p₀, hp₀⟩ := h.phase_of_worker hw
  have hstarts := h.worker p₀ hp₀ n w hw
  -- the row of the namespace tells the phase
  have hfail : stepTask status migrates = .failure → s.TaskFailed := by
    intro heq
    rw [heq] at hret
    have hjob := hret.of_failure
    rw [← hstarts.phase_eq (by rw [hjob]; decide), hjob] at hp₀
    exact ((h.phase _ hp₀).aborts rfl).1
  have hran : stepTask status migrates = .success →
      ∀ m ∈ s.links, s.tasks m = .dryRunSuccess ∨ s.tasks m = .success := by
    intro heq
    rw [heq] at hret
    have hjob := hret.of_success
    rw [← hstarts.phase_eq (by rw [hjob]; decide), hjob] at hp₀
    exact (h.phase _ hp₀).stands
  have hrows : w.jobStatus = .waitingDryRun → some (stepTask status migrates) ≠ some .failure ∧
      some (stepTask status migrates) ≠ some .success := by
    intro hjob
    rw [hjob] at hret
    rcases hret with heq | heq
    all_goals
      rw [heq]
      decide
  exact
    { h with
      oracle := by
        refine (forall_update_iff s.dryRuns fun m runs => m ∈ s.links → ∀ b ∈ runs, b = passes m).2
          ⟨fun hn b hmem => ?_, fun m _ => h.oracle m⟩
        rcases mem_append.1 hmem with hmem | hmem
        · exact h.oracle n hn b hmem
        split at hmem
        · next henq =>
          rw [mem_singleton.1 hmem]
          exact hdry henq
        · cases hmem
      failed := (forall_update_iff s.rows fun m row => m ∈ s.links → row = some .failure → _).2
        ⟨fun _ hrow => hfail (some.inj hrow), fun m _ => h.failed m⟩
      ran := (forall_update_iff s.rows fun m row => m ∈ s.links → row = some .success → _).2
        ⟨fun _ hrow => hran (some.inj hrow), fun m _ => h.ran m⟩
      idle := fun hjob => by
        simp [(h.idle hjob).1.2.2 n] at hw
      phase := fun p hp =>
        { h.phase p hp with
          rows := by
            intro hphase
            refine (forall_update_iff s.rows fun m row => m ∈ s.links → row ≠ _ ∧ row ≠ _).2
              ⟨fun _ => hrows ?_, fun m _ => (h.phase p hp).rows hphase m⟩
            rcases (h.worker p hp n w hw).job with heq | ⟨heq, -⟩
            · rw [heq, hphase]
            · simp [hphase] at heq }
      worker := fun p hp m w' hwm =>
        { h.worker p hp m w' hwm with
          row := by
            intro hjob
            by_cases hmn : m = n
            · subst hmn
              have hsame : w' = w := some.inj (hwm.symm.trans hw)
              rw [hsame] at hjob
              rw [commitTask_self.1]
              exact (hrows hjob).1
            · rw [(commitTask_of_ne hmn).1]
              exact (h.worker p hp m w' hwm).row hjob } }

theorem Phased.taskTxn (h : s.Phased passes) (hb : s.Bookkept)
    (hw : s.workers n = some w) {commits migrates : Bool} (backsUp : Bool)
    (hcare : s.Careful passes (.taskTxn n commits migrates backsUp)) :
    (s.taskTxn n w commits migrates backsUp).Phased passes := by
  have hsame : ∀ p, s.phase = some p → s.Starts p n { w with stepped := some none } :=
    fun p hp => { h.worker p hp n w hw with returns := nofun }
  cases commits with
  | false => exact h.setWorker hw hsame
  | true =>
    obtain ⟨status, hprep, hprepared⟩ := h.prepared hb hw
    obtain ⟨hdry, hrun⟩ := hcare rfl w status hw hprep
    have hret := hprepared.returns hrun
    unfold Sys.taskTxn
    rw [hprep]
    have hcommit := h.commitTask hw hdry hret
    refine hcommit.setWorker hw fun p hp => ?_
    refine { hcommit.worker p hp n w hw with returns := ?_ }
    intro new hnew
    cases backsUp with
    | false => cases hnew
    | true =>
      obtain rfl := some.inj (some.inj hnew)
      exact hret

section Report

variable {new : TaskStatus}

/-- The worker of a task is done: the task is at `new`, which is on its way to the scheduler. -/
def report (s : Sys ν) (n : ν) (w : TaskWorker) (new : TaskStatus) (enqueued : ν → Bool) : Sys ν :=
  { s.setWorker n none with
    tasks := Function.update s.tasks n new
    enqueued := enqueued
    results := s.results ++ [(n, w.oldStatus, new)] }

/-- What holds of a task before its worker is done holds of it afterwards, if it does of the status
the worker returns. -/
theorem WorkerOk.reported {P : TaskStatus → Prop} {m : ν} (hok : s.WorkerOk n w)
    (hnew : new = w.oldStatus ∨ Returns w.jobStatus new) (hm : P (s.tasks m))
    (hret : m = n → Returns w.jobStatus new → P new) : P (update s.tasks n new m) := by
  by_cases hmn : m = n
  · subst hmn
    rw [update_self]
    rcases hnew with rfl | hnew
    · rwa [← hok.task]
    · exact hret rfl hnew
  · rwa [update_of_ne hmn]

theorem TaskFailed.report (hfail : s.TaskFailed) (hstarts : s.Starts p n w)
    (hok : s.WorkerOk n w) (hnew : new = w.oldStatus ∨ Returns w.jobStatus new)
    (enqueued : ν → Bool) : (s.report n w new enqueued).TaskFailed := by
  obtain ⟨m, hm, hfail⟩ := hfail
  refine ⟨m, hm, hok.reported (P := fun task => task = _ ∨ task = _) hnew hfail ?_⟩
  rintro rfl hret
  have hold := hok.task.symm.trans (hfail.resolve_right (hok.ne_finished rfl))
  have htakes := hstarts.takes
  rw [hold] at htakes
  generalize w.jobStatus = jobStatus at htakes hret
  cases jobStatus with
  | dryRunFailure => exact Or.inr hret
  | waitingDryRun | waitingRun | dryRunSuccess | runSuccess | runFailure
  | waitingTransition => cases htakes

theorem Phased.passed_report (h : s.Phased passes) (hok : s.WorkerOk n w)
    (hw : s.workers n = some w) (hnew : new = w.oldStatus ∨ Returns w.jobStatus new)
    (hall : ∀ m ∈ s.links, s.tasks m = .dryRunSuccess ∨ s.tasks m = .success) {m : ν}
    (hm : m ∈ s.links) : update s.tasks n new m = .dryRunSuccess ∨
      update s.tasks n new m = .success := by
  refine hok.reported (P := fun task => task = _ ∨ task = _) hnew (hall m hm) ?_
  rintro rfl hret
  have hold := hok.task.symm.trans ((hall m hm).resolve_right (hok.ne_finished rfl))
  obtain ⟨p, hp⟩ := h.phase_of_worker hw
  have hstarts := h.worker p hp m w hw
  have htakes := hstarts.takes
  rw [hold] at htakes
  generalize hjob : w.jobStatus = jobStatus at htakes hret
  cases jobStatus with
  | waitingRun => exact Or.inr hret
  | dryRunFailure =>
    have hphase := (hstarts.phase_eq (by rw [hjob]; decide)).symm.trans hjob
    obtain ⟨⟨k, hk, hfail⟩, -⟩ := (h.phase p hp).aborts hphase
    rcases hall k hk with heq | heq
    all_goals
      rw [heq] at hfail
      rcases hfail with heq | heq <;> cases heq
  | waitingDryRun | dryRunSuccess | runSuccess | runFailure | waitingTransition => cases htakes

omit [DecidableEq ν] in
/-- The status a task is moved to stands in the phase. -/
theorem Starts.stands (h : s.Starts p n w) (hret : Returns w.jobStatus new) :
    Stands p new := by
  rcases h.job with heq | ⟨rfl, heq⟩
  · rw [heq] at hret
    cases p with
    | waitingDryRun | waitingRun => exact Or.inr hret
    | dryRunFailure =>
      obtain rfl : new = .failure := hret
      exact nofun
    | dryRunSuccess | runSuccess | runFailure | waitingTransition => exact False.elim hret
  · rw [heq] at hret
    rintro rfl
    rcases hret with heq | heq <;> cases heq

variable (h : s.Phased passes) (hb : s.Bookkept) (hw : s.workers n = some w)
include h hb hw

theorem Phased.recorded_report (hnew : new = w.oldStatus ∨ Returns w.jobStatus new)
    (enqueued : ν → Bool) : (s.report n w new enqueued).Recorded passes s.jobStatus := by
  have hok := hb.worker hw
  obtain ⟨p, hp⟩ := h.phase_of_worker hw
  have hrec := h.recorded
  generalize s.jobStatus = status at hrec ⊢
  cases status with
  | waitingDryRun => trivial
  | dryRunSuccess | waitingRun => exact fun m hm => h.passed_report hok hw hnew hrec hm
  | dryRunFailure => exact TaskFailed.report hrec (h.worker p hp n w hw) hok hnew enqueued
  | runSuccess => exact absurd (hrec n hok.mem) (hok.ne_finished rfl)
  | runFailure => exact absurd (hrec.1 n hok.mem) (hok.ne_finished rfl)
  | waitingTransition => exact hrec.elim

theorem Phased.report (hnew : new = w.oldStatus ∨ Returns w.jobStatus new) (enqueued : ν → Bool) :
    (s.report n w new enqueued).Phased passes := by
  have hok := hb.worker hw
  have hbusy := not_quiet hw
  exact
    { h with
      failed := by
        intro m hm hrow
        obtain ⟨p, hp⟩ := h.phase_of_worker hw
        exact (h.failed m hm hrow).report (h.worker p hp n w hw) hok hnew enqueued
      ran := fun m hm hrow k hk => h.passed_report hok hw hnew (h.ran m hm hrow) hk
      recorded := h.recorded_report hb hw hnew enqueued
      idle := fun hjob => absurd (h.idle hjob).1 hbusy
      phase := fun p hp =>
        have hstarts := h.worker p hp n w hw
        { h.phase p hp with
          stands := fun m hm =>
            hok.reported hnew ((h.phase p hp).stands m hm) fun _ hret => hstarts.stands hret
          aborts := fun hphase => ((h.phase p hp).aborts hphase).imp_left fun hfail =>
            hfail.report hstarts hok hnew enqueued }
      worker := by
        intro p hp m w' hwm
        rcases of_update_eq_some hwm with ⟨-, ⟨⟩⟩ | ⟨-, hwm⟩
        exact { h.worker p hp m w' hwm with }
      results := by
        intro p hp
        exact forall_mem_append.2
          ⟨h.results p hp, forall_mem_singleton.2 (h.worker p hp n w hw).takes_phase⟩
      jobWorker := by
        intro jw hjw
        have hjw : s.jobWorker = some jw := hjw
        have hstep := h.jobWorker jw hjw
        by_cases hcase : jw.step = .dryRunFailure
        · rw [hcase] at hstep ⊢
          obtain ⟨m, hm, hseen, htask⟩ := hstep
          refine ⟨m, hm, hseen, ?_⟩
          -- the workers that are out make dry runs, and that one is over
          obtain ⟨p, hp⟩ := h.phase_of_worker hw
          have htakes := (h.worker p hp n w hw).takes_phase
          rw [hb.phase_of_worker hjw, hcase] at hp
          cases hp
          have hold : w.oldStatus = .enqueued := htakes
          have hmn : m ≠ n := by
            rintro rfl
            simp [hok.task, hold] at htask
          exact (update_of_ne hmn ..).trans htask
        · exact absurd (hstep.quiet hcase) hbusy }

theorem Phased.taskMeta {stepped : Option TaskStatus} (hstepped : w.stepped = some stepped)
    (stores : Bool) : (s.taskMeta n w stepped stores).Phased passes := by
  obtain ⟨p, hp⟩ := h.phase_of_worker hw
  cases stores with
  | true =>
    refine h.report hb hw ?_ _
    cases stepped with
    | none => exact Or.inl rfl
    | some new => exact Or.inr ((h.worker p hp n w hw).returns new hstepped)
  | false =>
    have hsame : update s.tasks n w.oldStatus = s.tasks := by
      rw [← (hb.worker hw).task]
      exact update_eq_self ..
    have hreport := h.report hb hw (Or.inl rfl) s.enqueued
    unfold Sys.report at hreport
    rw [hsame] at hreport
    exact hreport

end Report

/-! ### The worker of the job -/

section

omit [DecidableEq ν]

variable (h : s.Phased passes)
include h

theorem Phased.withSchema (j v k : ℕ) : (s.withSchema j v k).Phased passes :=
  { h with
    idle := fun hjob => (h.idle hjob).imp_right fun hre hfin => { hre hfin with }
    phase := fun p hp => { h.phase p hp with }
    worker := fun p hp n w hw => { h.worker p hp n w hw with } }

theorem Phased.migrateSchema (migrates : Bool) :
    (s.migrateSchema migrates).Phased passes := by
  unfold Sys.migrateSchema
  split
  · exact h.withSchema s.jobId s.jobId _
  · exact h

theorem Phased.setJobWorker {w w' : JobWorker} (hw : s.jobWorker = some w)
    (hjob : s.job.isSome = true) (hstep : w'.step = w.step)
    (hdone : ∀ status, w'.phase = .done status →
      status = w.step.fallback ∨ status = w.step.target ∧ s.jobStatus = w.step.target) :
    { s with jobWorker := some w' }.Phased passes := by
  obtain ⟨job, hjob⟩ := isSome_iff_exists.1 hjob
  have hphase : Sys.phase { s with jobWorker := some w' } = s.phase := by
    simp only [Sys.phase, hjob, hw, hstep]
  exact
    { h with
      transit := by
        intro job' hjob'
        refine (h.transit job' hjob').trans ?_
        rw [hw]
        exact Iff.rfl
      idle := fun hnone => by
        have hnone : s.job = none := hnone
        simp [hjob] at hnone
      phase := fun p hp => { h.phase p (hphase ▸ hp) with }
      worker := fun p hp n w hwn => { h.worker p (hphase ▸ hp) n w hwn with }
      batch := fun p hp => h.batch p (hphase ▸ hp)
      results := fun p hp => h.results p (hphase ▸ hp)
      jobWorker := by
        rintro w'' ⟨⟩
        have hok := h.jobWorker w hw
        rw [← hstep] at hok
        exact hok
      done := by
        rintro step status ⟨⟩
        subst hstep
        exact hdone status rfl }

end

variable (h : s.Phased passes) (hb : s.Bookkept)
include h hb

theorem Phased.schemaTxn {w : JobWorker}
    (hw : s.jobWorker = some w) (commits migrates backsUp : Bool) :
    (s.schemaTxn w commits migrates backsUp).Phased passes := by
  have hjob := hb.waiting hw
  have hfall : ∀ (t : Sys ν) (status : JobStatus), JobPhase.done w.step.fallback = .done status →
      status = w.step.fallback ∨ status = w.step.target ∧ t.jobStatus = w.step.target := by
    rintro t status ⟨⟩
    exact Or.inl rfl
  cases commits with
  | false => exact h.setJobWorker hw hjob rfl (hfall s)
  | true =>
    have hmigrated := h.migrateSchema migrates
    have hw' : (s.migrateSchema migrates).jobWorker = some w := by
      unfold Sys.migrateSchema
      split <;> exact hw
    have hjob' : (s.migrateSchema migrates).job.isSome = true := by
      rw [migrateSchema_job, hjob]
    cases backsUp with
    | true => exact hmigrated.setJobWorker hw' hjob' rfl nofun
    | false => exact hmigrated.setJobWorker hw' hjob' rfl (hfall _)

/-- The status that a step stores goes with the phase the job is in until it is joined. -/
theorem Phased.store {w : JobWorker}
    (hw : s.jobWorker = some w) : { s with jobStatus := w.step.target }.Phased passes := by
  have hstep := h.jobWorker w hw
  have hphase := hb.phase_of_worker hw
  obtain ⟨step, phase⟩ := w
  exact
    { h with
      recorded := by
        cases step with
        | failure =>
          obtain ⟨n, hn, hfail⟩ := hb.failed hw rfl
          refine ⟨hstep.1, n, hn, ?_⟩
          exact (h.oracle n hn false (by rw [hfail]; exact mem_singleton_self _)).symm
        | waitingRun | dryRunSuccess => exact fun n hn => Or.inl (hstep.1 n hn)
        | dryRunFailure =>
          obtain ⟨n, hn, -, htask⟩ := hstep
          exact ⟨n, hn, Or.inl htask⟩
        | runSuccess => exact hstep.1
      idle := fun hnone => by
        have hnone := hb.jobWorker_none hnone
        simp [hw] at hnone
      phase := by
        intro p hp
        have hp : s.phase = some p := hp
        have hok := h.phase p hp
        rw [hphase] at hp
        cases hp
        refine { hok with waits := fun hdry => ?_, aborts := fun habort => ?_ }
        · cases step with
          | dryRunSuccess => exact Or.inr (Or.inl rfl)
          | dryRunFailure =>
            obtain ⟨n, hn, hseen, -⟩ := hstep
            exact Or.inr (Or.inr ⟨rfl, n, hn, hseen⟩)
          | failure | waitingRun | runSuccess => cases hdry
        · refine ⟨(hok.aborts habort).1, ?_⟩
          cases step with
          | failure => exact Or.inr rfl
          | waitingRun | dryRunFailure | dryRunSuccess | runSuccess => cases habort
      worker := fun p hp n w' hwn => { h.worker p hp n w' hwn with }
      done := by
        intro step status hdone
        have hdone : s.jobWorker = _ := hdone
        rcases h.done step status hdone with heq | ⟨heq, hstatus⟩
        · exact Or.inl heq
        refine Or.inr ⟨heq, ?_⟩
        rw [hw] at hdone
        cases hdone
        rfl }

theorem Phased.jobMeta {w : JobWorker}
    (hw : s.jobWorker = some w) (stores backsUp : Bool) :
    (s.jobMeta w stores backsUp).Phased passes := by
  have hjob := hb.waiting hw
  unfold Sys.jobMeta
  split
  · refine (h.store hb hw).setJobWorker hw hjob rfl ?_
    rintro status ⟨⟩
    cases backsUp with
    | true => exact Or.inr ⟨rfl, rfl⟩
    | false => exact Or.inl rfl
  · refine h.setJobWorker hw hjob rfl ?_
    rintro status ⟨⟩
    exact Or.inl rfl

/-! ### Runs -/

/-- **Every step** of a run that is considered keeps the phases. -/
theorem Phased.step {a : Action ν}
    (hcare : s.Careful passes a) (hstep : s.step a = some s') : s'.Phased passes := by
  cases step_iff.1 hstep with
  | load _ hjob =>
    exact h.load hb hjob
  | work job loads _ hjob =>
    exact h.work hb hjob loads
  | taskTxn n w commits migrates backsUp hw =>
    exact h.taskTxn hb hw backsUp hcare
  | taskMeta n w stepped stores hw hstepped =>
    exact h.taskMeta hb hw hstepped stores
  | schemaTxn commits migrates backsUp hw =>
    exact h.schemaTxn hb hw commits migrates backsUp
  | jobMeta w stores backsUp hw =>
    exact h.jobMeta hb hw stores backsUp
  | joinTask n old new rest _ hresults =>
    exact h.joinTask hb hresults
  | joinJob step status _ hw =>
    exact h.joinJob hb hw
  | crash =>
    exact h.crash hcare

omit hb h

omit [DecidableEq ν] in
theorem phased_registered (links : List ν) (jobId schemaVersion : ℕ) :
    (registered links jobId (fun _ => none) schemaVersion).Phased passes where
  spared := rfl
  oracle := nofun
  failed := nofun
  ran := nofun
  recorded := trivial
  transit := nofun
  idle := by
    refine fun _ => ⟨⟨rfl, rfl, fun _ => rfl⟩, fun _ => ⟨?_, nofun, nofun, nofun⟩⟩
    intro hne
    obtain ⟨n, hn⟩ := exists_mem_of_ne_nil links hne
    exact ⟨n, hn, nofun⟩
  phase := nofun
  worker := nofun
  batch := nofun
  results := nofun
  jobWorker := nofun
  done := nofun

end SqlAnywhere.Server.Migration.Sys
