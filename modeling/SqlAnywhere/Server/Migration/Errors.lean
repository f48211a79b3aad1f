import SqlAnywhere.Server.Migration.Phases.Workers

/-!
# The errors of a migration

A task whose migration fails has its error on record in its namespace; a worker returns it, and the
first one that is joined is what the scheduler expects to find when it gives up the job, and what the
job has on record from then on.

* `Reports`, `Reports.step` — a job with these errors
* `Reports.Explained` — every failed dry run has an error wherever it is reported
* `Reports.Sound.step` — every step of a run that is considered keeps it, and the scheduler goes on
-/

namespace SqlAnywhere.Server.Migration

open Function Option

/-- The error of the row of a task when its worker comes to `step_task`: `abort_migration_task`
replaces the row, and a row that `enqueue_migration_task` inserts has none. -/
def prepareError (jobStatus : JobStatus) (row : Option TaskStatus) (error : Option String) :
    Option String :=
  if jobStatus = .dryRunFailure then some "aborted" else if row = none then none else error

/-- The error that `step_task` leaves in the row; `text` is that of a migration that fails. -/
def storedError (status : TaskStatus) (migrates : Bool) (error : Option String) (text : String) :
    Option String :=
  match status with
  | .run | .enqueued => if migrates then none else some text
  | _ => error

/-- The error that `step_task` returns. -/
def stepError (status : TaskStatus) (migrates : Bool) (error : Option String) (text : String) :
    Option String :=
  match status with
  | .run | .enqueued => if migrates then none else some text
  | .dryRunSuccess | .success => none
  | .dryRunFailure | .failure => error

/-- A job, with the errors of its tasks wherever they are. -/
structure Reports (ν : Type*) where
  sys : Sys ν
  /-- The column `error` of the rows of the namespaces. -/
  rowErrors : ν → Option String
  /-- What the workers of tasks have returned. -/
  stepErrors : ν → Option String
  /-- What comes with the results that have not been joined. -/
  resultErrors : List (Option String)
  /-- `task_error` of the current job. -/
  taskError : Option (ν × String)
  /-- The column `error` of the job. -/
  jobError : Option (ν × String)

namespace Reports

open Sys (Action)

variable {ν : Type*} [DecidableEq ν]

/-- The errors after `try_step_task_inner`. -/
def txnErrors (r : Reports ν) (n : ν) (w : TaskWorker) (commits migrates backsUp : Bool)
    (text : String) : Reports ν :=
  match commits, prepareTask w.jobStatus w.oldStatus (r.sys.rows n) with
  | true, some (some status) =>
    let error := prepareError w.jobStatus (r.sys.rows n) (r.rowErrors n)
    { r with
      rowErrors := Function.update r.rowErrors n (storedError status migrates error text)
      stepErrors := Function.update r.stepErrors n
        (if backsUp then stepError status migrates error text else none) }
  | _, _ => { r with stepErrors := Function.update r.stepErrors n none }

/-- The errors after a step. -/
def errors (r : Reports ν) (text : String) : Action ν → Reports ν
  | .load => if r.sys.jobStatus.isFinished then r else { r with taskError := none }
  | .taskTxn n commits migrates backsUp =>
    match r.sys.workers n with
    | none => r
    | some w => r.txnErrors n w commits migrates backsUp text
  | .taskMeta n _ => { r with resultErrors := r.resultErrors ++ [r.stepErrors n] }
  | .jobMeta stores _ =>
    match r.sys.jobWorker with
    | some ⟨.dryRunFailure, _⟩ => if stores then { r with jobError := r.taskError.or r.jobError } else r
    | _ => r
  | .joinTask =>
    match r.sys.results, r.resultErrors with
    | (n, _, _) :: _, error :: rest =>
      { r with resultErrors := rest, taskError := r.taskError.or (error.map fun text => (n, text)) }
    | _, _ => r
  | .crash => { r with stepErrors := fun _ => none, resultErrors := [], taskError := none }
  | .work _ | .schemaTxn .. | .joinJob => r

/-- Where `maybe_step_job` expects the error of a task, and there is none. -/
def unexpected (r : Reports ν) : Bool :=
  match r.sys.job with
  | none => false
  | some job =>
    job.status == .waitingDryRun && job.progress .dryRunFailure != 0 && r.taskError.isNone

/-- A step, with the error a migration gives if one fails in it. -/
def step (r : Reports ν) : Action ν × String → Option (Reports ν)
  | (.work loads, _) =>
    (r.sys.step (.work loads)).map fun s =>
      { r with sys := if r.unexpected then r.sys.panic else s }
  | (a, text) => (r.sys.step a).map fun s => { r.errors text a with sys := s }

/-- A job that has just been registered. -/
def registered (links : List ν) (jobId schemaVersion : ℕ) : Reports ν where
  sys := .registered links jobId (fun _ => none) schemaVersion
  rowErrors := fun _ => none
  stepErrors := fun _ => none
  resultErrors := []
  taskError := none
  jobError := none

variable {r r' : Reports ν} {n : ν} {text : String} {passes : ν → Bool} {old new : TaskStatus}
  {status : JobStatus}

/-- Every dry run that has failed has an error where it is reported. -/
structure Explained (r : Reports ν) : Prop where
  rows : ∀ n, r.sys.rows n = some .dryRunFailure → r.rowErrors n ≠ none
  steps : ∀ n w, r.sys.workers n = some w → w.stepped = some (some .dryRunFailure) →
    r.stepErrors n ≠ none
  results : List.Forall₂ (fun result error => result.2.1 ≠ .dryRunFailure →
    result.2.2 = .dryRunFailure → error ≠ none) r.sys.results r.resultErrors
  task : r.sys.phase = some .waitingDryRun → ∀ n ∈ r.sys.links, r.sys.seen n = .dryRunFailure →
    r.taskError ≠ none
  job : r.sys.jobStatus = .dryRunFailure ∨ r.sys.jobStatus = .runFailure → r.jobError ≠ none

/-- What holds in every run that is considered. -/
structure Sound (passes : ν → Bool) (r : Reports ν) : Prop where
  books : r.sys.Bookkept
  phased : r.sys.Phased passes
  explained : r.Explained

theorem Sound.not_unexpected (h : r.Sound passes) : r.unexpected = false := by
  unfold unexpected
  cases hjob : r.sys.job with
  | none => rfl
  | some job =>
    by_contra hne
    simp only [Bool.not_eq_false, Bool.and_eq_true, beq_iff_eq, bne_iff_ne, isNone_iff_eq_none]
      at hne
    obtain ⟨⟨hstatus, hfail⟩, hnone⟩ := hne
    have hw := h.phased.jobWorker_none hjob (by rw [hstatus]; nofun)
    have hp := Sys.phase_of_job hjob hw
    rw [hstatus] at hp
    obtain ⟨n, hn, hseen⟩ := h.books.seen_of_progress hjob hfail
    exact h.explained.task hp n hn hseen hnone

theorem Sound.step_iff (h : r.Sound passes) {a : Action ν} :
    r.step (a, text) = some r' ↔
      ∃ s, r.sys.step a = some s ∧ r' = { r.errors text a with sys := s } := by
  have hexpected := h.not_unexpected
  cases a with
  | work loads =>
    simp only [step, hexpected, map_eq_some_iff, errors]
    exact exists_congr fun s => and_congr_right fun _ => eq_comm
  | _ =>
    simp only [step, map_eq_some_iff]
    exact exists_congr fun s => and_congr_right fun _ => eq_comm

/-! ### Every step keeps the errors -/

theorem Explained.load (h : r.Explained) (hb : r.sys.Bookkept) (hjob : r.sys.job = none) :
    Explained { r.errors text .load with sys := r.sys.load } := by
  by_cases hfin : r.sys.jobStatus.isFinished = true
  · simp only [errors, Sys.load, hfin, if_true]
    exact h
  · simp only [errors, Sys.load, if_neg hfin]
    exact
      { h with
        task := by
          intro hp n hn hseen
          simp only [Sys.phase, hb.jobWorker_none hjob] at hp
          have hfail : r.sys.progress .dryRunFailure ≠ 0 := Sys.progress_ne_zero.2 ⟨n, hn, hseen⟩
          have hstatus : statusFromProgress r.sys.progress = .dryRunFailure := if_pos hfail
          rw [hstatus] at hp
          cases hp }

omit [DecidableEq ν] in
theorem Explained.work (h : r.Explained) {s : Sys ν} (hsent : Sys.Sent r.sys s) :
    Explained { r with sys := s } where
  rows := by
    intro n hrow
    have hrow : s.rows n = _ := hrow
    rw [hsent.rows] at hrow
    exact h.rows n hrow
  steps := by
    intro n w hw hstepped
    rcases hsent.workers n w hw with hw | hnone
    · exact h.steps n w hw hstepped
    · simp [hnone] at hstepped
  results := by
    rw [hsent.results]
    exact h.results
  task := by
    intro hp n hn hseen
    have hp : s.phase = _ := hp
    have hseen : s.seen n = _ := hseen
    rw [hsent.phase] at hp
    rw [hsent.links] at hn
    rw [hsent.seen] at hseen
    exact h.task hp n hn hseen
  job := by
    rw [hsent.jobStatus]
    exact h.job

/-- A failed dry run that `step_task` returns comes with an error. -/
theorem stepError_of_failure {jobStatus : JobStatus} {old status : TaskStatus}
    {row : Option TaskStatus} {migrates : Bool} {error : Option String}
    (hprep : prepareTask jobStatus old row = some (some status))
    (hrow : row = some .dryRunFailure → error ≠ none)
    (hfail : stepTask status migrates = .dryRunFailure) :
    stepError status migrates (prepareError jobStatus row error) text ≠ none ∧
      storedError status migrates (prepareError jobStatus row error) text ≠ none := by
  cases status with
  | enqueued =>
    cases migrates with
    | true => cases hfail
    | false => exact ⟨nofun, nofun⟩
  | run => cases migrates <;> cases hfail
  | dryRunFailure =>
    rcases prepareTask_cases hprep with ⟨-, heq⟩ | ⟨-, heq⟩ | ⟨-, -, heq⟩ | hrow'
    · cases heq
    · cases heq
    · cases heq
    have herror : prepareError jobStatus row error ≠ none := by
      unfold prepareError
      split
      · nofun
      · rw [if_neg (by rw [hrow']; nofun)]
        exact hrow hrow'
    exact ⟨herror, herror⟩
  | dryRunSuccess | success | failure => cases hfail

theorem Explained.taskTxn (h : r.Explained) {w : TaskWorker} (hw : r.sys.workers n = some w)
    (commits migrates backsUp : Bool) :
    Explained { r.errors text (.taskTxn n commits migrates backsUp) with
      sys := r.sys.taskTxn n w commits migrates backsUp } := by
  have hkept : ∀ worker : Option TaskWorker,
      (∀ w', worker = some w' → w'.stepped ≠ some (some .dryRunFailure)) →
      Explained { r with
        stepErrors := update r.stepErrors n none, sys := r.sys.setWorker n worker } := by
    intro worker hnone
    exact
      { h with
        steps := by
          intro m w' hwm hstepped
          rcases of_update_eq_some hwm with ⟨-, hnew⟩ | ⟨hm, hwm⟩
          · exact absurd hstepped (hnone w' hnew)
          · show update r.stepErrors n none m ≠ none
            rw [update_of_ne hm]
            exact h.steps m w' hwm hstepped }
  simp only [errors, hw, txnErrors, Sys.taskTxn]
  cases commits with
  | false => exact hkept _ (by rintro _ ⟨⟩ ⟨⟩)
  | true =>
    rcases hprep : prepareTask w.jobStatus w.oldStatus (r.sys.rows n) with _ | _ | status
    · exact hkept none (by rintro _ ⟨⟩)
    · exact hkept _ (by rintro _ ⟨⟩ ⟨⟩)
    have herror : stepTask status migrates = .dryRunFailure →
        stepError status migrates (prepareError w.jobStatus (r.sys.rows n) (r.rowErrors n)) text ≠
            none ∧
          storedError status migrates (prepareError w.jobStatus (r.sys.rows n) (r.rowErrors n))
            text ≠ none :=
      stepError_of_failure hprep (h.rows n)
    exact
      { h with
        rows := by
          intro m hrow
          show update r.rowErrors n _ m ≠ none
          by_cases hm : m = n
          · subst hm
            have hrow : (r.sys.commitTask m status migrates).rows m = _ := hrow
            rw [Sys.commitTask_self.1] at hrow
            rw [update_self]
            exact (herror (some.inj hrow)).2
          · have hrow : (r.sys.commitTask n status migrates).rows m = _ := hrow
            rw [(Sys.commitTask_of_ne hm).1] at hrow
            rw [update_of_ne hm]
            exact h.rows m hrow
        steps := by
          intro m w' hwm hstepped
          show update r.stepErrors n _ m ≠ none
          rcases of_update_eq_some hwm with ⟨rfl, ⟨⟩⟩ | ⟨hm, hwm⟩
          · rw [update_self]
            cases backsUp with
            | false => cases hstepped
            | true => exact (herror (some.inj (some.inj hstepped))).1
          · rw [update_of_ne hm]
            exact h.steps m w' hwm hstepped }

theorem Explained.report (h : r.Explained) {s : Sys ν}
    (hrows : s.rows = r.sys.rows) (hlinks : s.links = r.sys.links) (hseen : s.seen = r.sys.seen)
    (hstatus : s.jobStatus = r.sys.jobStatus) (hphase : s.phase = r.sys.phase)
    (hworkers : s.workers = update r.sys.workers n none)
    (hresults : s.results = r.sys.results ++ [(n, old, new)])
    (hnew : old ≠ .dryRunFailure → new = .dryRunFailure → r.stepErrors n ≠ none) :
    Explained { r with resultErrors := r.resultErrors ++ [r.stepErrors n], sys := s } where
  rows := by
    rw [hrows]
    exact h.rows
  steps := by
    intro m w hw hstepped
    have hw : s.workers m = some w := hw
    rw [hworkers] at hw
    rcases of_update_eq_some hw with ⟨-, ⟨⟩⟩ | ⟨-, hw⟩
    exact h.steps m w hw hstepped
  results := by
    rw [hresults]
    exact List.rel_append h.results (.cons hnew .nil)
  task := by
    rw [hphase, hlinks, hseen]
    exact h.task
  job := by
    rw [hstatus]
    exact h.job

theorem Explained.taskMeta (h : r.Explained) {w : TaskWorker} (hw : r.sys.workers n = some w)
    {stepped : Option TaskStatus} (hstepped : w.stepped = some stepped) (stores : Bool) :
    Explained { r.errors text (.taskMeta n stores) with
      sys := r.sys.taskMeta n w stepped stores } := by
  cases stores with
  | false =>
    exact h.report rfl rfl rfl rfl rfl rfl rfl fun hold hnew => absurd hnew hold
  | true =>
    refine h.report rfl rfl rfl rfl rfl rfl rfl fun hold hnew => ?_
    cases stepped with
    | none => exact absurd hnew hold
    | some new =>
      have hnew : new = .dryRunFailure := hnew
      rw [hnew] at hstepped
      exact h.steps n w hw hstepped

omit [DecidableEq ν] in
theorem Explained.setJobWorker (h : r.Explained) {w w' : JobWorker}
    (hw : r.sys.jobWorker = some w) (hstep : w'.step = w.step) :
    Explained { r with sys := { r.sys with jobWorker := some w' } } :=
  { h with
    task := by
      intro hp
      refine h.task ?_
      cases hjob : r.sys.job with
      | none =>
        simp only [Sys.phase, hjob] at hp
        cases hp
      | some job =>
        simp only [Sys.phase, hjob, hw, hstep] at hp ⊢
        exact hp }

omit [DecidableEq ν] in
theorem Explained.migrateSchema (h : r.Explained) (migrates : Bool) :
    Explained { r with sys := r.sys.migrateSchema migrates } := by
  unfold Sys.migrateSchema
  split
  · exact { h with }
  · exact h

theorem Explained.schemaTxn (h : r.Explained) {w : JobWorker} (hw : r.sys.jobWorker = some w)
    (commits migrates backsUp : Bool) :
    Explained { r.errors text (.schemaTxn commits migrates backsUp) with
      sys := r.sys.schemaTxn w commits migrates backsUp } := by
  have hw' : (r.sys.migrateSchema migrates).jobWorker = some w := by
    unfold Sys.migrateSchema
    split <;> exact hw
  cases commits with
  | false => exact h.setJobWorker hw rfl
  | true =>
    have hmigrated := h.migrateSchema migrates
    cases backsUp with
    | true | false => exact hmigrated.setJobWorker hw' rfl

omit [DecidableEq ν] in
theorem Explained.store (h : r.Explained) {error : Option (ν × String)}
    (hjob : status = .dryRunFailure ∨ status = .runFailure → error ≠ none) :
    Explained { r with jobError := error, sys := { r.sys with jobStatus := status } } :=
  { h with job := hjob }

variable (h : r.Sound passes)
include h

theorem Sound.explained_jobMeta {w : JobWorker}
    (hw : r.sys.jobWorker = some w) (stores backsUp : Bool) :
    Explained { r.errors text (.jobMeta stores backsUp) with
      sys := r.sys.jobMeta w stores backsUp } := by
  have hex := h.explained
  have hstep := h.phased.jobWorker w hw
  have hp := h.books.phase_of_worker hw
  obtain ⟨step, phase⟩ := w
  cases stores with
  | false =>
    have herrors : r.errors text (.jobMeta false backsUp) = r := by
      simp only [errors, hw]
      split <;> rfl
    rw [herrors]
    exact hex.setJobWorker hw rfl
  | true =>
    cases step with
    | dryRunFailure =>
      obtain ⟨n, hn, hseen, -⟩ := hstep
      have herror := hex.task hp n hn hseen
      simp only [errors, hw, if_true]
      have hsome : r.taskError.or r.jobError ≠ none := fun hnone =>
        herror (or_eq_none_iff.1 hnone).1
      exact (hex.store fun _ => hsome).setJobWorker hw rfl
    | failure =>
      simp only [errors, hw]
      refine (hex.store fun _ => ?_).setJobWorker hw rfl
      exact hex.job ((h.phased.phase _ hp).aborts rfl).2
    | waitingRun | runSuccess =>
      simp only [errors, hw]
      exact (hex.store (by rintro (heq | heq) <;> cases heq)).setJobWorker hw rfl
    | dryRunSuccess =>
      simp only [errors, hw, Sys.jobMeta]
      split
      · exact (hex.store (by rintro (heq | heq) <;> cases heq)).setJobWorker hw rfl
      · exact hex.setJobWorker hw rfl

theorem Sound.explained_joinTask
    {rest : List (ν × TaskStatus × TaskStatus)} (hresults : r.sys.results = (n, old, new) :: rest) :
    Explained { r.errors text .joinTask with sys := r.sys.joinTask n old new rest } := by
  have hex := h.explained
  have hhead : (n, old, new) ∈ r.sys.results := by rw [hresults]; exact List.mem_cons_self ..
  have hall := hex.results
  rw [hresults] at hall
  obtain ⟨error, errors', hnew, hrest, herrors⟩ := List.forall₂_cons_left_iff.1 hall
  simp only [errors, hresults, herrors, Sys.joinTask]
  cases hjob : r.sys.job with
  | none =>
    simp [(h.phased.idle hjob).1.1] at hhead
  | some job =>
    exact
      { hex with
        results := hrest
        task := by
          intro hp m hm hseen
          have hdry : r.sys.phase = some .waitingDryRun := by
            cases hjw : r.sys.jobWorker with
            | none | some =>
              simp only [Sys.phase, hjob, hjw] at hp ⊢
              exact hp
          intro hnone
          obtain ⟨htask, hmap⟩ := or_eq_none_iff.1 hnone
          have hseen : update r.sys.seen n new m = .dryRunFailure := hseen
          by_cases hmn : m = n
          · subst hmn
            rw [update_self] at hseen
            have hold : old = .enqueued := h.phased.results _ hdry _ hhead
            exact hnew (by rw [hold]; rintro ⟨⟩) hseen (map_eq_none_iff.1 hmap)
          · rw [update_of_ne hmn] at hseen
            exact hex.task hdry m hm hseen htask }

theorem Sound.explained_joinJob {step : JobStep}
    (hw : r.sys.jobWorker = some ⟨step, .done status⟩) :
    Explained { r.errors text .joinJob with sys := r.sys.joinJob status } := by
  have hex := h.explained
  obtain ⟨job, hjob⟩ := isSome_iff_exists.1 (h.books.waiting hw)
  have hp := h.books.phase_of_worker hw
  simp only [errors, Sys.joinJob, hjob]
  split
  · exact { hex with task := by rintro ⟨⟩ }
  rename_i hfin
  refine { hex with task := fun hp' => ?_ }
  cases hp'
  refine hex.task ?_
  -- the job waits for its dry runs only if it did before
  rcases h.phased.done step _ hw with heq | ⟨heq, -⟩
  · rw [hp, ← heq]
  · cases step <;> cases heq

omit h

omit [DecidableEq ν] in
theorem Explained.crash (h : r.Explained) :
    Explained { r with
      stepErrors := fun _ => none, resultErrors := [], taskError := none, sys := r.sys.crash } :=
  { h with
    steps := nofun
    results := .nil
    task := nofun }

/-! ### Runs -/

/-- The condition of `Sys.Careful`, on the job. -/
def Careful (passes : ν → Bool) (r : Reports ν) (a : Action ν × String) : Prop :=
  r.sys.Careful passes a.1

/-- **Every step** of a run that is considered keeps what holds in it. -/
theorem Sound.step (h : r.Sound passes) {a : Action ν × String} (hcare : r.Careful passes a)
    (hstep : r.step a = some r') : r'.Sound passes := by
  obtain ⟨a, text⟩ := a
  obtain ⟨s, hs, rfl⟩ := h.step_iff.1 hstep
  refine ⟨h.books.step hs, h.phased.step h.books hcare hs, ?_⟩
  cases Sys.step_iff.1 hs with
  | load _ hjob =>
    exact h.explained.load h.books hjob
  | work job loads _ hjob =>
    exact h.explained.work (h.phased.sent_work hjob loads)
  | taskTxn n w commits migrates backsUp hw =>
    exact h.explained.taskTxn hw commits migrates backsUp
  | taskMeta n w stepped stores hw hstepped =>
    exact h.explained.taskMeta hw hstepped stores
  | schemaTxn commits migrates backsUp hw =>
    exact h.explained.schemaTxn hw commits migrates backsUp
  | jobMeta w stores backsUp hw =>
    exact h.explained_jobMeta hw stores backsUp
  | joinTask n old new rest _ hresults =>
    exact h.explained_joinTask hresults
  | joinJob step status _ hw =>
    exact h.explained_joinJob hw
  | crash =>
    exact h.explained.crash

theorem sound_registered {links : List ν} (hnodup : links.Nodup) (jobId schemaVersion : ℕ) :
    (registered links jobId schemaVersion).Sound passes where
  books := Sys.bookkept_registered hnodup jobId schemaVersion
  phased := Sys.phased_registered links jobId schemaVersion
  explained :=
    { rows := nofun
      steps := nofun
      results := .nil
      task := nofun
      job := by rintro (heq | heq) <;> cases heq }

end Reports

end SqlAnywhere.Server.Migration
