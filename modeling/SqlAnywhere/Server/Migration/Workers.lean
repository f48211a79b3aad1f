import SqlAnywhere.Server.Migration.Invariant

/-!
# The steps of the workers of a migration

* `Sys.Inv.taskTxn`, `Sys.Inv.taskMeta` — the worker of a task
* `Sys.Inv.schemaTxn`, `Sys.Inv.jobMeta` — the worker of the job
-/

namespace SqlAnywhere.Server.Migration.Sys

open Function (forall_update_iff update_self update_of_ne update_eq_self)

variable {ν : Type*} [DecidableEq ν] {s s' : Sys ν} {n : ν} {w : TaskWorker}
  {stepped : Option TaskStatus} {step : JobStep} {status : TaskStatus}

/-! ### The worker of a task -/

theorem Inv.setWorker_none (h : s.Inv) (n : ν) : (s.setWorker n none).Inv :=
  { h with
    worker := by
      intro m w hw
      rcases of_update_eq_some hw with ⟨-, ⟨⟩⟩ | ⟨-, hw⟩
      exact { h.worker m w hw with }
    batch := fun p hp =>
      { h.batch p hp with
        free := update_eq_none (h.batch p hp).free }
    quiet := fun hnone => (h.quiet hnone).imp_right fun hq => ⟨hq.1, hq.2.1, fun m =>
      update_eq_none (hq.2.2 m)⟩
    jobWorker := fun w hw => { h.jobWorker w hw with } }

theorem Inv.setWorker_stepped (h : s.Inv) (hw : s.workers n = some w)
    (htells : ∀ status, stepped = some status → Tells (s.rows n) (s.dryRuns n) status) :
    (s.setWorker n (some { w with stepped := some stepped })).Inv := by
  have hok := h.worker n w hw
  have hbusy : ∀ m, s.workers m = none → m ≠ n := by
    rintro m hm rfl
    simp [hw] at hm
  exact
    { h with
      worker := by
        intro m w' hw'
        rcases of_update_eq_some hw' with ⟨rfl, ⟨⟩⟩ | ⟨-, hw'⟩
        · exact { hok with stepped := fun status hst => htells status (Option.some.inj hst) }
        · exact { h.worker m w' hw' with }
      batch := fun p hp =>
        { h.batch p hp with
          free := (update_of_ne (hbusy _ (h.batch p hp).free) ..).trans
            (h.batch p hp).free }
      quiet := fun hnone => (h.quiet hnone).imp_right fun hq => absurd rfl (hbusy n (hq.2.2 n))
      jobWorker := fun w hw => { h.jobWorker w hw with } }

/-- What is on record in the namespaces only grows: a dry run keeps its outcome, and a row at
`Success` stays there. -/
structure Grows (s s' : Sys ν) : Prop where
  links : s'.links = s.links
  runs : ∀ n b, s.dryRuns n = [b] → s'.dryRuns n = [b]
  rows : ∀ n ∈ s.links, s.rows n = some .success → s'.rows n = some .success

namespace Grows

omit [DecidableEq ν]

variable (g : Grows s s')
include g

theorem passed (h : s.Passed) : s'.Passed := by
  intro n hn
  rw [g.links] at hn
  exact g.runs n true (h n hn)

theorem failed (h : s.Failed) : s'.Failed := by
  obtain ⟨n, hn, hfail⟩ := h
  exact ⟨n, by rw [g.links]; exact hn, g.runs n false hfail⟩

theorem tells (hn : n ∈ s.links)
    (h : Tells (s.rows n) (s.dryRuns n) status) : Tells (s'.rows n) (s'.dryRuns n) status := by
  cases status with
  | enqueued | failure => trivial
  | dryRunSuccess => exact g.runs n true h
  | dryRunFailure => exact g.runs n false h
  | run => exact h
  | success => exact g.rows n hn h

theorem evidence {status : JobStatus} (h : s.Evidence status) :
    s'.Evidence status := by
  cases status with
  | waitingDryRun => trivial
  | dryRunSuccess | waitingRun => exact g.passed h
  | dryRunFailure => exact g.failed h
  | runSuccess | runFailure | waitingTransition => trivial

theorem stepEvidence (htasks : s'.tasks = s.tasks)
    (h : s.StepEvidence step) : s'.StepEvidence step := by
  cases step with
  | failure | dryRunFailure => exact g.failed h
  | waitingRun => exact g.passed h
  | dryRunSuccess => trivial
  | runSuccess =>
    refine ⟨g.passed h.1, fun n hn => ?_⟩
    rw [htasks]
    rw [g.links] at hn
    exact h.2 n hn

end Grows

/-- An aborted task had not been applied: some dry run has failed, so none was. -/
theorem Inv.not_success_of_failed (h : s.Inv) (hfail : s.Failed) (hn : n ∈ s.links) :
    s.rows n ≠ some .success := by
  intro hrow
  have hok := h.row n hn
  rw [hrow] at hok
  have happlied : s.applied n ≠ 0 := by
    generalize s.dryRuns n = runs at hok
    generalize s.applied n = k at hok
    cases hok
    exact Nat.one_ne_zero
  exact (h.ran n hn happlied).not_failed hfail

theorem Inv.commits (h : s.Inv) (hw : s.workers n = some w)
    (hprep : prepareTask w.jobStatus w.oldStatus (s.rows n) = some (some status))
    (migrates : Bool) :
    Commits w.jobStatus (s.rows n) (s.dryRuns n) (s.applied n) (stepTask status migrates)
      (s.dryRuns n ++ if status = .enqueued then [migrates] else [])
      (s.applied n + if status = .run ∧ migrates = true then 1 else 0) := by
  have hok := h.worker n w hw
  refine (h.row n hok.mem).commits hprep (fun hjob => ?_) migrates
  have hev := hok.job
  rw [hjob] at hev
  exact h.not_success_of_failed hev hok.mem

section Commit

variable {migrates : Bool}

theorem commitTask_self :
    (s.commitTask n status migrates).rows n = some (stepTask status migrates) ∧
      (s.commitTask n status migrates).applied n =
        s.applied n + (if status = .run ∧ migrates = true then 1 else 0) ∧
      (s.commitTask n status migrates).dryRuns n =
        s.dryRuns n ++ (if status = .enqueued then [migrates] else []) :=
  ⟨update_self .., update_self .., update_self ..⟩

theorem commitTask_of_ne {m : ν} (hm : m ≠ n) :
    (s.commitTask n status migrates).rows m = s.rows m ∧
      (s.commitTask n status migrates).applied m = s.applied m ∧
      (s.commitTask n status migrates).dryRuns m = s.dryRuns m :=
  ⟨update_of_ne hm .., update_of_ne hm .., update_of_ne hm ..⟩

theorem Grows.commitTask {jobStatus : JobStatus}
    (hc : Commits jobStatus (s.rows n) (s.dryRuns n) (s.applied n) (stepTask status migrates)
      (s.dryRuns n ++ if status = .enqueued then [migrates] else [])
      (s.applied n + if status = .run ∧ migrates = true then 1 else 0)) :
    Grows s (s.commitTask n status migrates) where
  links := rfl
  runs := by
    refine (forall_update_iff s.dryRuns fun m runs => ∀ b, s.dryRuns m = [b] → runs = [b]).2
      ⟨fun b hm => ?_, fun _ _ _ => id⟩
    rcases hc.runs with hempty | hsame
    · simp [hempty] at hm
    · rw [hsame, hm]
  rows := (forall_update_iff s.rows fun m row => m ∈ s.links → s.rows m = some .success →
    row = some .success).2 ⟨fun _ hm => congrArg some (hc.kept hm), fun _ _ _ => id⟩

end Commit

theorem Inv.commitTask (h : s.Inv) (hw : s.workers n = some w)
    (hprep : prepareTask w.jobStatus w.oldStatus (s.rows n) = some (some status))
    (migrates : Bool) : (s.commitTask n status migrates).Inv := by
  have hc := h.commits hw hprep migrates
  have hok := h.worker n w hw
  have g := Grows.commitTask hc
  exact
    { h with
      row := by
        intro m hm
        by_cases hmn : m = n
        · subst hmn
          rw [commitTask_self.1, commitTask_self.2.1, commitTask_self.2.2]
          exact hc.ok
        · rw [(commitTask_of_ne hmn).1, (commitTask_of_ne hmn).2.1, (commitTask_of_ne hmn).2.2]
          exact h.row m hm
      task := fun m hm => g.tells hm (h.task m hm)
      ran := by
        refine (forall_update_iff s.applied fun m k => m ∈ s.links → k ≠ 0 → Passed _).2
          ⟨fun hm happlied => g.passed ?_, fun m _ hm happlied => g.passed (h.ran m hm happlied)⟩
        rcases hc.asked happlied with hbefore | hjob
        · exact h.ran n hm hbefore
        · have hev := hok.job
          rw [hjob] at hev
          exact hev
      schemaRan := fun hv => g.passed (h.schemaRan hv)
      worker := fun m w' hw' =>
        { h.worker m w' hw' with
          job := g.evidence (h.worker m w' hw').job
          stepped := fun st hst =>
            g.tells (h.worker m w' hw').mem ((h.worker m w' hw').stepped st hst) }
      batch := fun p hp => { h.batch p hp with }
      seen := fun m hm => g.tells hm (h.seen m hm)
      result := fun r hr => ⟨(h.result r hr).1, g.tells (h.result r hr).1 (h.result r hr).2⟩
      job := fun job hjob => g.evidence (h.job job hjob)
      jobWorker := fun w' hw' =>
        { h.jobWorker w' hw' with
          step := g.stepEvidence rfl (h.jobWorker w' hw').step
          done := fun st hst =>
            ((h.jobWorker w' hw').done st hst).imp_left g.evidence } }

theorem Inv.taskTxn (h : s.Inv) (hw : s.workers n = some w)
    (commits migrates backsUp : Bool) : (s.taskTxn n w commits migrates backsUp).Inv := by
  unfold Sys.taskTxn
  split
  swap
  · exact h.setWorker_stepped hw (by rintro _ ⟨⟩)
  split
  · exact h.setWorker_none n
  · exact h.setWorker_stepped hw (by rintro _ ⟨⟩)
  rename_i status hprep
  have hc := h.commits hw hprep migrates
  refine (h.commitTask hw hprep migrates).setWorker_stepped hw ?_
  intro st hst
  cases backsUp with
  | false => cases hst
  | true =>
    cases hst
    rw [commitTask_self.1, commitTask_self.2.2]
    exact hc.ok.tells

omit [DecidableEq ν] in
/-- While a task has a worker, not all tasks have succeeded. -/
theorem WorkerOk.not_success (h : s.WorkerOk n w) :
    ¬ ∀ m ∈ s.links, s.tasks m = .success := by
  intro hall
  have hfin := h.unfinished
  rw [← h.task, hall n h.mem] at hfin
  cases hfin

/-- The worker of a task is done, and what it has made of the task is on its way to the scheduler. -/
theorem Inv.reported (h : s.Inv) (hw : s.workers n = some w) {new : TaskStatus}
    (htells : Tells (s.rows n) (s.dryRuns n) new) {enqueued : ν → Bool}
    (henqueued : ∀ m, m ≠ n → enqueued m = s.enqueued m) :
    { s.setWorker n none with
      tasks := Function.update s.tasks n new
      enqueued := enqueued
      results := s.results ++ [(n, w.oldStatus, new)] }.Inv := by
  have hok := h.worker n w hw
  have hbusy : ∀ m, s.workers m = none → m ≠ n := by
    rintro m hm rfl
    simp [hw] at hm
  have hfree := h.setWorker_none n
  exact
    { hfree with
      task := (forall_update_iff s.tasks fun m task => m ∈ s.links → Tells _ _ task).2
        ⟨fun _ => htells, fun m _ => h.task m⟩
      finished := fun hrun => absurd (h.finished hrun).1 hok.not_success
      worker := by
        intro m w' hw'
        rcases of_update_eq_some hw' with ⟨-, ⟨⟩⟩ | ⟨hmn, hw'⟩
        exact
          { h.worker m w' hw' with
            task := (update_of_ne hmn ..).trans (h.worker m w' hw').task
            enqueued := (henqueued m hmn).trans (h.worker m w' hw').enqueued }
      batch := fun p hp =>
        have hne := hbusy p.1 (h.batch p hp).free
        { hfree.batch p hp with
          task := (update_of_ne hne ..).trans (h.batch p hp).task
          enqueued := (henqueued p.1 hne).trans (h.batch p hp).enqueued }
      result := List.forall_mem_append.2
        ⟨h.result, List.forall_mem_singleton.2 ⟨hok.mem, htells⟩⟩
      leads := by
        intro hjob
        have hold : (s.tasks n).isFinished = false := by rw [hok.task, hok.unfinished]
        have hleads := (h.leads hjob).snoc hold new
        rw [hok.task] at hleads
        exact hleads
      quiet := fun hnone =>
        (h.quiet hnone).imp_right fun hq => absurd rfl (hbusy n (hq.2.2 n))
      jobWorker := by
        intro w' hw'
        have hstep := (h.jobWorker w' hw').step
        refine { h.jobWorker w' hw' with step := ?_ }
        cases hcase : w'.step with
        | runSuccess =>
          rw [hcase] at hstep
          exact absurd hstep.2 hok.not_success
        | failure | waitingRun | dryRunFailure | dryRunSuccess =>
          rw [hcase] at hstep
          exact hstep }

theorem Inv.taskMeta (h : s.Inv) (hw : s.workers n = some w) (hstepped : w.stepped = some stepped)
    (stores : Bool) : (s.taskMeta n w stepped stores).Inv := by
  have hok := h.worker n w hw
  have htask : Tells (s.rows n) (s.dryRuns n) w.oldStatus := by
    rw [← hok.task]
    exact h.task n hok.mem
  cases stores with
  | true =>
    refine h.reported hw ?_ fun m hm => update_of_ne hm ..
    cases stepped with
    | none => exact htask
    | some status => exact hok.stepped status hstepped
  | false =>
    have hreported := h.reported hw htask fun m _ => rfl
    rw [← hok.task, update_eq_self, hok.task] at hreported
    exact hreported

/-! ### The worker of the job -/

theorem Inv.setJobWorker (h : s.Inv) (hjob : s.job.isSome = true) {w : JobWorker}
    (hw : s.JobWorkerOk w) : { s with jobWorker := some w }.Inv :=
  { h with
    worker := fun m w' hw' => { h.worker m w' hw' with }
    batch := fun p hp => { h.batch p hp with }
    waiting := fun _ _ => hjob
    jobWorker := by
      rintro w' ⟨⟩
      exact { hw with } }

theorem Inv.returnJob_fallback (h : s.Inv) {w : JobWorker} (hjob : s.job.isSome = true)
    (hstep : s.StepEvidence w.step) : (s.returnJob w w.step.fallback).Inv := by
  refine h.setJobWorker hjob ⟨hstep, nofun, ?_⟩
  rintro status ⟨⟩
  refine ⟨hstep.fallback, fun hfin => ?_⟩
  simp [JobStep.fallback_unfinished] at hfin

omit [DecidableEq ν] in
theorem migrateSchema_version (migrates : Bool) :
    (s.migrateSchema migrates).schemaVersion = (s.migrateSchema migrates).jobId := by
  unfold migrateSchema
  split
  · rfl
  · next hversion => exact Decidable.not_not.1 hversion

theorem Inv.migrateSchema (h : s.Inv) (hpassed : s.Passed) {migrates : Bool}
    (hmigrates : s.schemaVersion ≠ s.jobId → migrates = true) :
    (s.migrateSchema migrates).Inv := by
  unfold Sys.migrateSchema
  split
  swap
  · exact h
  rename_i hversion
  obtain rfl := hmigrates hversion
  have hzero := h.schema
  rw [if_neg hversion] at hzero
  exact
    { h with
      schema := by
        show s.schemaApplied + 1 = if s.jobId = s.jobId then 1 else 0
        rw [hzero, if_pos rfl]
      schemaRan := fun _ => hpassed
      finished := fun hrun => ⟨(h.finished hrun).1, rfl⟩
      worker := fun m w hw => { h.worker m w hw with }
      batch := fun p hp => { h.batch p hp with }
      jobWorker := fun w hw =>
        { h.jobWorker w hw with
          migrated := fun hp => ⟨((h.jobWorker w hw).migrated hp).1, rfl⟩ } }

omit [DecidableEq ν] in
theorem migrateSchema_evidence (migrates : Bool) (h : s.StepEvidence step) :
    (s.migrateSchema migrates).StepEvidence step := by
  unfold migrateSchema
  split
  · cases step <;> exact h
  · exact h

omit [DecidableEq ν] in
theorem migrateSchema_job (migrates : Bool) : (s.migrateSchema migrates).job = s.job := by
  unfold migrateSchema
  split <;> rfl

theorem Inv.schemaTxn (h : s.Inv) {w : JobWorker} (hw : s.jobWorker = some w)
    (hstep : w.step = .runSuccess) {commits migrates : Bool} (backsUp : Bool)
    (hmigrates : commits = true → s.schemaVersion ≠ s.jobId → migrates = true) :
    (s.schemaTxn w commits migrates backsUp).Inv := by
  have hjob := h.waiting w hw
  have hev := (h.jobWorker w hw).step
  have hpassed : s.Passed := by
    rw [hstep] at hev
    exact hev.1
  unfold Sys.schemaTxn
  split
  · next hcommits =>
    have hmigrated := h.migrateSchema hpassed (hmigrates hcommits)
    have hjob' : (s.migrateSchema migrates).job.isSome = true := by
      rw [migrateSchema_job, hjob]
    split
    · refine hmigrated.setJobWorker hjob' ⟨migrateSchema_evidence migrates hev, fun _ => ?_, by rintro _ ⟨⟩⟩
      exact ⟨hstep, migrateSchema_version migrates⟩
    · exact hmigrated.returnJob_fallback hjob' (migrateSchema_evidence migrates hev)
  · exact h.returnJob_fallback hjob hev

/-- What the metastore says once it lets a step be made. -/
theorem Inv.evidence_target (h : s.Inv) (hstep : s.StepEvidence step)
    (hallows : s.allows step = true) : s.Evidence step.target := by
  cases step with
  | failure => trivial
  | waitingRun | dryRunFailure => exact hstep
  | dryRunSuccess =>
    intro n hn
    obtain ⟨-, hall⟩ := Bool.and_eq_true_iff.1 hallows
    have htells := h.task n hn
    rw [eq_of_beq (List.all_eq_true.1 hall n hn)] at htells
    exact htells
  | runSuccess => trivial

theorem Inv.jobMeta (h : s.Inv) {w : JobWorker} (hw : s.jobWorker = some w)
    (hphase : w.step = .runSuccess → w.phase = .migrated) (stores backsUp : Bool) :
    (s.jobMeta w stores backsUp).Inv := by
  have hjob := h.waiting w hw
  have hok := h.jobWorker w hw
  unfold Sys.jobMeta
  split
  swap
  · exact h.returnJob_fallback hjob hok.step
  rename_i hstores
  have htarget := h.evidence_target hok.step (Bool.and_eq_true_iff.1 hstores).2
  exact
    { h with
      finished := by
        intro hrun
        have hrun : w.step.target = .runSuccess := hrun
        have hstep : w.step = .runSuccess := by
          cases hcase : w.step <;> rw [hcase] at hrun <;> first | rfl | cases hrun
        have hev := hok.step
        rw [hstep] at hev
        exact ⟨hev.2, (hok.migrated (hphase hstep)).2⟩
      worker := fun m w' hw' => { h.worker m w' hw' with }
      batch := fun p hp => { h.batch p hp with }
      quiet := by
        intro hnone
        have hnone : s.job = none := hnone
        simp [hnone] at hjob
      waiting := fun _ _ => hjob
      jobWorker := by
        rintro w' ⟨⟩
        refine ⟨hok.step, by rintro ⟨⟩, ?_⟩
        rintro status ⟨⟩
        cases backsUp with
        | true => exact ⟨htarget, fun _ => rfl⟩
        | false =>
          refine ⟨hok.step.fallback, fun hfin => ?_⟩
          have hfin : w.step.fallback.isFinished = true := hfin
          rw [JobStep.fallback_unfinished] at hfin
          cases hfin }

end SqlAnywhere.Server.Migration.Sys
