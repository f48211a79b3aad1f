import Mathlib.Data.Nat.Notation
import Mathlib.Logic.Function.Basic
import SqlAnywhere.Lib.Run

/-!
# The migration scheduler

A migration of a shared schema is a job with one task for each linked namespace.  What has been done
is on record in three places that no transaction spans: the job and its tasks in the metastore, a
row for the job in each namespace's own database, and the `schema_version` of the schema database.
The scheduler's own memory (its current job with the number of tasks in each status, its batch of
tasks, its workers and the temporary table of enqueued tasks) is lost when the server stops.

* `stepTask`, `prepareTask` — what one transaction on a namespace's database does with its row
* `Sys` — one job: the three databases, the scheduler's memory and what its workers hold
* `Action`, `Sys.step` — one step of the scheduler or of one of its workers, with the errors they
  can meet, or a crash

A worker is taken apart where a crash or another worker can come between: a task is one transaction
on the namespace's database and then one on the metastore, and the last step of a job is one
transaction on the schema database and then one on the metastore.
-/

namespace SqlAnywhere.Server.Migration

/-- `MigrationTaskStatus`. -/
inductive TaskStatus
  | enqueued
  | dryRunSuccess
  | dryRunFailure
  | run
  | success
  | failure
  deriving DecidableEq, Repr

def TaskStatus.isFinished : TaskStatus → Bool
  | .success | .failure => true
  | _ => false

/-- `MigrationJobStatus`.  The last one is never stored. -/
inductive JobStatus
  | waitingDryRun
  | dryRunSuccess
  | dryRunFailure
  | waitingRun
  | runSuccess
  | runFailure
  | waitingTransition
  deriving DecidableEq, Repr

def JobStatus.isFinished : JobStatus → Bool
  | .runSuccess | .runFailure => true
  | _ => false

/-- `MigrationProgress`: how many tasks are in each status. -/
abbrev Progress := TaskStatus → ℕ

/-- A task goes from one status to another: the one count goes down, and then the other up. -/
def Progress.move (progress : Progress) (old new : TaskStatus) : Progress :=
  let less := Function.update progress old (progress old - 1)
  Function.update less new (less new + 1)

def statusFromProgress (progress : Progress) : JobStatus :=
  if progress .dryRunFailure ≠ 0 then .dryRunFailure
  else if progress .failure ≠ 0 then .runFailure
  else if progress .enqueued ≠ 0 then .waitingDryRun
  else if progress .dryRunSuccess ≠ 0 ∨ progress .run ≠ 0 then .waitingRun
  else if progress .success ≠ 0 then .runSuccess
  else .waitingDryRun

/-- `MigrationJob`, of which the scheduler changes the status and the progress. -/
structure Job where
  status : JobStatus
  progress : Progress

/-- All the statuses a progress counts. -/
def TaskStatus.all : List TaskStatus :=
  [.enqueued, .dryRunSuccess, .dryRunFailure, .run, .success, .failure]

def Job.progressAll (job : Job) (status : TaskStatus) : Bool :=
  TaskStatus.all.all fun other => other == status || job.progress other == 0

/-! ### One transaction on a namespace's database -/

/-- `perform_migration`, in a savepoint: a migration that fails is rolled back, and so is a dry
run, unless a statement of it has ended the transaction and the savepoint is gone (`Torn`). -/
def performMigration (dryRun migrates : Bool) : TaskStatus :=
  match dryRun, migrates with
  | true, true => .dryRunSuccess
  | true, false => .dryRunFailure
  | false, true => .success
  | false, false => .failure

/-- `step_task`: the status of the row after it, from the one before it. -/
def stepTask (status : TaskStatus) (migrates : Bool) : TaskStatus :=
  match status with
  | .run => performMigration false migrates
  | .enqueued => performMigration true migrates
  | .dryRunSuccess => .dryRunSuccess
  | .dryRunFailure => .dryRunFailure
  | .success => .success
  | .failure => .failure

/-- What `try_step_task_inner` does to the row before it calls `step_task`: `abort_migration_task`
replaces it, `enqueue_migration_task` inserts it unless there is one, `step_migration_task_run`
moves it on from a dry run that succeeded.  `none` is the branch that is `unreachable!`. -/
def prepareTask (jobStatus : JobStatus) (oldStatus : TaskStatus) (row : Option TaskStatus) :
    Option (Option TaskStatus) :=
  if jobStatus = .dryRunFailure then some (some .failure)
  else if oldStatus = .enqueued then some (some (row.getD .enqueued))
  else if oldStatus = .dryRunSuccess ∧ jobStatus = .waitingRun then
    some (if row = some .dryRunSuccess then some .run else row)
  else none

/-! ### The scheduler and its workers -/

/-- A worker of `try_step_task`: the status its task had, the status the job had, and what
`try_step_task_inner` has returned, once it has (`none` is an error). -/
structure TaskWorker where
  oldStatus : TaskStatus
  jobStatus : JobStatus
  stepped : Option (Option TaskStatus)

/-- The functions `step_job_…`. -/
inductive JobStep
  | failure
  | waitingRun
  | dryRunFailure
  | dryRunSuccess
  | runSuccess
  deriving DecidableEq, Repr

/-- The status the job has after the step. -/
def JobStep.target : JobStep → JobStatus
  | .failure => .runFailure
  | .waitingRun => .waitingRun
  | .dryRunFailure => .dryRunFailure
  | .dryRunSuccess => .dryRunSuccess
  | .runSuccess => .runSuccess

/-- The `fallback_state` of `try_step_job`, for a step that meets an error. -/
def JobStep.fallback : JobStep → JobStatus
  | .failure => .dryRunFailure
  | .waitingRun => .dryRunSuccess
  | .dryRunFailure => .waitingDryRun
  | .dryRunSuccess => .waitingDryRun
  | .runSuccess => .waitingRun

/-- How far a worker of `try_step_job` is: `migrated` is `step_job_run_success` after the schema
database, `done` a worker that has returned its status. -/
inductive JobPhase
  | start
  | migrated
  | done (status : JobStatus)

/-- A worker of `try_step_job`. -/
structure JobWorker where
  step : JobStep
  phase : JobPhase

/-- A worker of the job that turns to the metastore next. -/
def JobWorker.AtMeta (w : JobWorker) : Prop :=
  w.phase = .start ∧ w.step ≠ .runSuccess ∨ w.phase = .migrated

/-- A migration job over the namespaces `links` and everything its steps read or write.  The first
group is stored, the second is what has become of the databases, and the third is the scheduler's
memory. -/
structure Sys (ν : Type*) where
  /-- The namespaces with a task: those linked to the schema when the job was registered. -/
  links : List ν
  jobId : ℕ
  /-- The status of the job in the metastore. -/
  jobStatus : JobStatus
  /-- The statuses of the tasks in the metastore. -/
  tasks : ν → TaskStatus
  /-- The row of the job in each namespace's own table of tasks. -/
  rows : ν → Option TaskStatus
  /-- `PRAGMA schema_version` of the schema database. -/
  schemaVersion : ℕ
  /-- How often the migration has been committed to each namespace. -/
  applied : ν → ℕ
  /-- How often the migration has been committed to the schema database. -/
  schemaApplied : ℕ
  /-- How the dry runs on each namespace have ended. -/
  dryRuns : ν → List Bool
  /-- `current_job`. -/
  job : Option Job
  /-- The statuses that the progress of `current_job` counts. -/
  seen : ν → TaskStatus
  /-- `current_batch`, with the task that is popped next first. -/
  batch : List (ν × TaskStatus)
  /-- The temporary table `enqueued_tasks`. -/
  enqueued : ν → Bool
  /-- The workers of tasks. -/
  workers : ν → Option TaskWorker
  /-- The results of tasks that have not been joined, in the order they came: the namespace, the
  status the task had and the one it has. -/
  results : List (ν × TaskStatus × TaskStatus)
  /-- The worker that steps the job. -/
  jobWorker : Option JobWorker
  /-- The scheduler has stopped at a `todo!`, an `unreachable!` or an `expect`. -/
  panicked : Bool

namespace Sys

variable {ν : Type*} [DecidableEq ν]

/-- The tasks in each status, as the metastore has them. -/
def progress (s : Sys ν) : Progress := fun status => s.links.countP (fun n => s.tasks n == status)

/-- `get_next_pending_migration_job`, which takes the job only while it is not finished, and the
status from its tasks rather than from its own record. -/
def load (s : Sys ν) : Sys ν :=
  if s.jobStatus.isFinished then s
  else { s with
    job := some { status := statusFromProgress s.progress, progress := s.progress }
    seen := s.tasks }

/-- Whether a batch for a job of this status takes a task of that one. -/
def wanted : JobStatus → TaskStatus → Bool
  | .waitingDryRun, status => status == .enqueued
  | .waitingRun, status => status == .dryRunSuccess
  | .dryRunFailure, status => !status.isFinished
  | _, _ => false

def maxBatchSize : ℕ := 50

/-- The tasks of the next batch. -/
def nextBatch (s : Sys ν) (status : JobStatus) : List ν :=
  (s.links.filter fun n => wanted status (s.tasks n) && !s.enqueued n).take maxBatchSize

/-- `get_next_pending_migration_tasks_batch` and `get_unfinished_task_batch`. -/
def fetch (s : Sys ν) (status : JobStatus) : Sys ν :=
  { s with
    batch := ((s.nextBatch status).map fun n => (n, s.tasks n)).reverse
    enqueued := fun n => s.enqueued n || decide (n ∈ s.nextBatch status) }

/-- The end of `enqueue_task`: pop a task and spawn a worker for it, unless its namespace does not
load. -/
def spawnTask (s : Sys ν) (job : Job) (loads : Bool) : Sys ν :=
  match s.batch with
  | [] => s
  | (n, status) :: rest =>
    if loads then
      { s with
        batch := rest
        workers := Function.update s.workers n
          (some { oldStatus := status, jobStatus := job.status, stepped := none }) }
    else { s with batch := rest }

def enqueueTask (s : Sys ν) (job : Job) (loads : Bool) : Sys ν :=
  if s.batch.isEmpty then (s.fetch job.status).spawnTask job loads else s.spawnTask job loads

/-- Spawn a worker that steps the job. -/
def spawnJob (s : Sys ν) (job : Job) (step : JobStep) : Sys ν :=
  { s with
    job := some { job with status := .waitingTransition }
    jobWorker := some { step := step, phase := .start } }

/-- The scheduler stops. -/
def panic (s : Sys ν) : Sys ν := { s with panicked := true }

/-- `enqueue_work` with a current job: `maybe_step_job`, and `enqueue_task` if it returns the
permit. -/
def work (s : Sys ν) (job : Job) (loads : Bool) : Sys ν :=
  match job.status with
  | .waitingDryRun =>
    if job.progress .dryRunFailure ≠ 0 then s.spawnJob job .dryRunFailure
    else if job.progressAll .dryRunSuccess then s.spawnJob job .dryRunSuccess
    else s.enqueueTask job loads
  | .dryRunSuccess => s.spawnJob job .waitingRun
  | .dryRunFailure =>
    if job.progressAll .failure then s.spawnJob job .failure else s.enqueueTask job loads
  | .waitingRun =>
    if job.progress .failure ≠ 0 then s.panic
    else if job.progressAll .success then s.spawnJob job .runSuccess
    else s.enqueueTask job loads
  | .waitingTransition => s
  | .runSuccess | .runFailure => s.panic

/-- The worker of `n`'s task. -/
def setWorker (s : Sys ν) (n : ν) (worker : Option TaskWorker) : Sys ν :=
  { s with workers := Function.update s.workers n worker }

/-- The transaction of `try_step_task_inner` commits, with `status` the row's status before
`step_task`. -/
def commitTask (s : Sys ν) (n : ν) (status : TaskStatus) (migrates : Bool) : Sys ν :=
  { s with
    rows := Function.update s.rows n (some (stepTask status migrates))
    applied := Function.update s.applied n
      (s.applied n + if status = .run ∧ migrates = true then 1 else 0)
    dryRuns := Function.update s.dryRuns n
      (s.dryRuns n ++ if status = .enqueued then [migrates] else []) }

/-- `try_step_task_inner`.  `commits` is false where it meets an error up to its commit, `backsUp`
where `backup_namespace` does.  The scheduler stops when it joins a worker that panicked; runs in
which it goes on without it are among those considered here. -/
def taskTxn (s : Sys ν) (n : ν) (w : TaskWorker) (commits migrates backsUp : Bool) : Sys ν :=
  if commits then
    match prepareTask w.jobStatus w.oldStatus (s.rows n) with
    | none => s.setWorker n none
    -- `get_task_infos` finds no row
    | some none => s.setWorker n (some { w with stepped := some none })
    | some (some status) =>
      (s.commitTask n status migrates).setWorker n (some { w with
        stepped := some (if backsUp then some (stepTask status migrates) else none) })
  else s.setWorker n (some { w with stepped := some none })

/-- The end of `try_step_task`: `update_meta_task_status`, whose trigger takes the task out of
`enqueued_tasks`. -/
def taskMeta (s : Sys ν) (n : ν) (w : TaskWorker) (stepped : Option TaskStatus) (stores : Bool) :
    Sys ν :=
  if stores then
    { s.setWorker n none with
      tasks := Function.update s.tasks n (stepped.getD w.oldStatus)
      enqueued := Function.update s.enqueued n false
      results := s.results ++ [(n, w.oldStatus, stepped.getD w.oldStatus)] }
  else
    { s.setWorker n none with results := s.results ++ [(n, w.oldStatus, w.oldStatus)] }

/-- The worker of the job returns a status. -/
def returnJob (s : Sys ν) (w : JobWorker) (status : JobStatus) : Sys ν :=
  { s with jobWorker := some { w with phase := .done status } }

/-- The transaction of `step_job_run_success` on the schema database.  Whether the migration
succeeds is not looked at. -/
def migrateSchema (s : Sys ν) (migrates : Bool) : Sys ν :=
  if s.schemaVersion ≠ s.jobId then
    { s with
      schemaVersion := s.jobId
      schemaApplied := s.schemaApplied + if migrates then 1 else 0 }
  else s

/-- `step_job_run_success` up to the backup of the schema database. -/
def schemaTxn (s : Sys ν) (w : JobWorker) (commits migrates backsUp : Bool) : Sys ν :=
  if commits then
    if backsUp then
      { s.migrateSchema migrates with jobWorker := some { w with phase := .migrated } }
    else (s.migrateSchema migrates).returnJob w w.step.fallback
  else s.returnJob w w.step.fallback

/-- What the statement of the step asks of the metastore, for `job_step_dry_run_success`. -/
def allows (s : Sys ν) (step : JobStep) : Bool :=
  step != .dryRunSuccess ||
    ((s.jobStatus == .waitingDryRun || s.jobStatus == .dryRunSuccess) &&
      s.links.all fun n => s.tasks n == .dryRunSuccess)

/-- A step of the job on the metastore: its statement, then `backup_meta_store`. -/
def jobMeta (s : Sys ν) (w : JobWorker) (stores backsUp : Bool) : Sys ν :=
  if stores && s.allows w.step then
    { s with jobStatus := w.step.target }.returnJob w
      (if backsUp then w.step.target else w.step.fallback)
  else s.returnJob w w.step.fallback

/-- The result of a task is joined. -/
def joinTask (s : Sys ν) (n : ν) (old new : TaskStatus) (rest : List (ν × TaskStatus × TaskStatus)) :
    Sys ν :=
  match s.job with
  | none => s.panic
  | some job =>
    { s with
      results := rest
      seen := Function.update s.seen n new
      job := some { job with progress := job.progress.move old new } }

/-- The status of the job is joined. -/
def joinJob (s : Sys ν) (status : JobStatus) : Sys ν :=
  match s.job with
  | none => s.panic
  | some job =>
    if status.isFinished then { s with job := none, jobWorker := none }
    else { s with job := some { job with status := status }, jobWorker := none }

/-- The server stops, and starts again with what is stored. -/
def crash (s : Sys ν) : Sys ν :=
  { s with
    job := none
    batch := []
    enqueued := fun _ => false
    workers := fun _ => none
    results := []
    jobWorker := none
    panicked := false }

/-- A step of the scheduler or of one of its workers, with how the operations it makes end. -/
inductive Action (ν : Type*)
  | load
  | work (loads : Bool)
  | taskTxn (n : ν) (commits migrates backsUp : Bool)
  | taskMeta (n : ν) (stores : Bool)
  | schemaTxn (commits migrates backsUp : Bool)
  | jobMeta (stores backsUp : Bool)
  | joinTask
  | joinJob
  | crash

/-- Take a step, where it is one that can be taken. -/
def step (s : Sys ν) : Action ν → Option (Sys ν)
  | .load => if s.panicked || s.job.isSome then none else some s.load
  | .work loads =>
    if s.panicked then none
    else match s.job with
      | none => none
      | some job => some (s.work job loads)
  | .taskTxn n commits migrates backsUp =>
    match s.workers n with
    | none => none
    | some w => if w.stepped.isSome then none else some (s.taskTxn n w commits migrates backsUp)
  | .taskMeta n stores =>
    match s.workers n with
    | none => none
    | some w =>
      match w.stepped with
      | none => none
      | some stepped => some (s.taskMeta n w stepped stores)
  | .schemaTxn commits migrates backsUp =>
    match s.jobWorker with
    | some ⟨.runSuccess, .start⟩ => some (s.schemaTxn ⟨.runSuccess, .start⟩ commits migrates backsUp)
    | _ => none
  | .jobMeta stores backsUp =>
    match s.jobWorker with
    | some ⟨step, .start⟩ =>
      if step = .runSuccess then none else some (s.jobMeta ⟨step, .start⟩ stores backsUp)
    | some ⟨step, .migrated⟩ => some (s.jobMeta ⟨step, .migrated⟩ stores backsUp)
    | _ => none
  | .joinTask =>
    if s.panicked then none
    else match s.results with
      | [] => none
      | (n, old, new) :: rest => some (s.joinTask n old new rest)
  | .joinJob =>
    if s.panicked then none
    else match s.jobWorker with
      | some ⟨_, .done status⟩ => some (s.joinJob status)
      | _ => none
  | .crash => some s.crash

/-- What each step is: when it can be taken, and where it leads. -/
inductive Step (s : Sys ν) : Action ν → Sys ν → Prop
  | load : s.panicked = false → s.job = none → Step s .load s.load
  | work (job loads) : s.panicked = false → s.job = some job →
    Step s (.work loads) (s.work job loads)
  | taskTxn (n w commits migrates backsUp) : s.workers n = some w → w.stepped = none →
    Step s (.taskTxn n commits migrates backsUp) (s.taskTxn n w commits migrates backsUp)
  | taskMeta (n w stepped stores) : s.workers n = some w → w.stepped = some stepped →
    Step s (.taskMeta n stores) (s.taskMeta n w stepped stores)
  | schemaTxn (commits migrates backsUp) : s.jobWorker = some ⟨.runSuccess, .start⟩ →
    Step s (.schemaTxn commits migrates backsUp)
      (s.schemaTxn ⟨.runSuccess, .start⟩ commits migrates backsUp)
  | jobMeta (w stores backsUp) : s.jobWorker = some w → w.AtMeta →
    Step s (.jobMeta stores backsUp) (s.jobMeta w stores backsUp)
  | joinTask (n old new rest) : s.panicked = false → s.results = (n, old, new) :: rest →
    Step s .joinTask (s.joinTask n old new rest)
  | joinJob (step status) : s.panicked = false → s.jobWorker = some ⟨step, .done status⟩ →
    Step s .joinJob (s.joinJob status)
  | crash : Step s .crash s.crash

theorem step_iff {s s' : Sys ν} {a : Action ν} : s.step a = some s' ↔ s.Step a s' := by
  constructor
  · intro h
    cases a <;> simp only [step] at h <;> (repeat' split at h) <;> cases h <;> constructor <;>
      first | assumption | simp_all [JobWorker.AtMeta]
  · intro h
    cases h with
    | jobMeta w stores backsUp hw hat =>
      obtain ⟨step, phase⟩ := w
      obtain ⟨rfl, hstep⟩ | rfl := hat <;> simp_all [Sys.step]
    | _ => simp [step, *]

/-- A job that has just been registered, over databases as they are. -/
def registered (links : List ν) (jobId : ℕ) (rows : ν → Option TaskStatus) (schemaVersion : ℕ) :
    Sys ν where
  links := links
  jobId := jobId
  jobStatus := .waitingDryRun
  tasks := fun _ => .enqueued
  rows := rows
  schemaVersion := schemaVersion
  applied := fun _ => 0
  schemaApplied := 0
  dryRuns := fun _ => []
  job := none
  seen := fun _ => .enqueued
  batch := []
  enqueued := fun _ => false
  workers := fun _ => none
  results := []
  jobWorker := none
  panicked := false

end Sys

end SqlAnywhere.Server.Migration
