import SqlAnywhere.Server.Migration.Errors
import SqlAnywhere.Server.Migration.Progress

/-!
# The queue of migration jobs

The scheduler works on one job at a time.  What wakes it is a flag, `has_work`, that its own steps
raise and lower, a message, or a worker that returns.

* `Scheduler` — the registered jobs, the current one, the flag and the errors met in a row
* `Scheduler.Action`, `Scheduler.step` — one turn of `Scheduler::step`, a step of a worker, or a
  restart
* `Scheduler.InFlight` — some worker has not been joined
-/

namespace SqlAnywhere.Server.Migration

def Job.countPendingTasks (job : Job) : ℕ :=
  match job.status with
  | .waitingDryRun => job.progress .enqueued
  | .waitingRun => job.progress .dryRunSuccess + job.progress .run
  | .dryRunFailure => (TaskStatus.all.map job.progress).sum - job.progress .failure
  | .dryRunSuccess | .runSuccess | .runFailure | .waitingTransition => 0

namespace Sys

variable {ν : Type*}

/-- The permits that are taken: a worker has one until it returns. -/
def permits (s : Sys ν) : ℕ :=
  s.links.countP (fun n => (s.workers n).isSome) +
    match s.jobWorker with
    | some ⟨_, .start⟩ | some ⟨_, .migrated⟩ => 1
    | _ => 0

/-- `has_work` after the result of a task has been joined. -/
def hasMore (s : Sys ν) (job : Job) : Bool :=
  !s.batch.isEmpty || (job.countPendingTasks == 0 && s.permits == 0) ||
    decide (s.permits < job.countPendingTasks)

/-- The set of workers is not empty: one is at work, or has returned and is not joined. -/
def InFlight (s : Sys ν) : Prop :=
  (∃ n, s.workers n ≠ none) ∨ s.results ≠ [] ∨ s.jobWorker ≠ none

/-- The steps that are a worker's. -/
def Action.ofWorker : Action ν → Bool
  | .taskTxn .. | .taskMeta .. | .schemaTxn .. | .jobMeta .. => true
  | .load | .work .. | .joinTask | .joinJob | .crash => false

end Sys

/-- The scheduler, over the jobs of schemas `σ` and namespaces `ν`. -/
structure Scheduler (σ ν : Type*) where
  /-- The schemas of the registered jobs, in the order of their ids. -/
  schemas : List σ
  /-- The jobs; the current one with what the scheduler and its workers have in memory. -/
  jobs : ℕ → Reports ν
  current : Option ℕ
  hasWork : Bool
  /-- The errors of `Scheduler::run` in a row. -/
  tries : ℕ
  /-- A worker that panicked has not been joined. -/
  workerPanicked : Bool
  /-- `Scheduler::run` has given up, or stopped at the `todo!` for such a worker. -/
  exited : Bool

namespace Scheduler

variable {σ ν : Type*} [DecidableEq σ] [DecidableEq ν]

def maxConcurrent : ℕ := 10

def maxErrorRetries : ℕ := 10

/-- A scheduler over an empty metastore. -/
def new : Scheduler σ ν where
  schemas := []
  jobs := fun _ => .registered [] 0 0
  current := none
  hasWork := true
  tries := 0
  workerPanicked := false
  exited := false

/-- A registered job that is not finished. -/
def unfinished (s : Scheduler σ ν) (i : ℕ) : Bool := !(s.jobs i).sys.jobStatus.isFinished

/-- The scheduler's task is running. -/
def alive (s : Scheduler σ ν) : Bool :=
  !s.exited && (List.range s.schemas.length).all fun i => !(s.jobs i).sys.panicked

def setJob (s : Scheduler σ ν) (i : ℕ) (r : Reports ν) : Scheduler σ ν :=
  { s with jobs := Function.update s.jobs i r }

/-- `Scheduler::run` after a turn. -/
def turned (s : Scheduler σ ν) (ok : Bool) : Scheduler σ ν :=
  if ok then { s with tries := 0 }
  else if maxErrorRetries ≤ s.tries then { s with exited := true }
  else { s with tries := s.tries + 1 }

/-- `register_schema_migration_job`, which refuses a schema with an unfinished job; `stores` is false
where it meets an error or the schema is none. -/
def register (s : Scheduler σ ν) (schema : σ) (links : List ν) (schemaVersion : ℕ)
    (stores : Bool) : Scheduler σ ν :=
  if stores && !(List.range s.schemas.length).any (fun i => s.schemas[i]? == some schema &&
      s.unfinished i) then
    { s with
      schemas := s.schemas ++ [schema]
      jobs := Function.update s.jobs s.schemas.length
        (.registered links (s.schemas.length + 1) schemaVersion) }
  else s

/-- `handle_msg` of `ScheduleMigration`. -/
def scheduleMigration (s : Scheduler σ ν) (schema : σ) (links : List ν) (schemaVersion : ℕ)
    (stores : Bool) : Scheduler σ ν :=
  { s.register schema links schemaVersion stores with hasWork := s.current.isNone }

/-- `enqueue_work` with the current job `i`; the result tells whether it meets an error.  `fetches`
is false where the query for a batch does, `loads` where the namespace of the task does not load. -/
def enqueueWork (s : Scheduler σ ν) (i : ℕ) (fetches loads : Bool) :
    Option (Scheduler σ ν × Bool) :=
  let r := s.jobs i
  match r.sys.job with
  | none => none
  | some job =>
    if Sys.enqueues job then
      if r.sys.batch.isEmpty && !fetches then some (s, false)
      else if r.sys.batch.isEmpty && (r.sys.nextBatch job.status).isEmpty then
        some ({ s with hasWork := false }, true)
      else (r.step (.work loads, "")).map fun r' => (s.setJob i r', loads)
    else (r.step (.work loads, "")).map fun r' => ({ s.setJob i r' with hasWork := false }, true)

/-- The first job that is not finished. -/
def next (s : Scheduler σ ν) : Option ℕ := (List.range s.schemas.length).find? s.unfinished

/-- `enqueue_work`; `finds` is false where the query for the next job meets an error. -/
def work (s : Scheduler σ ν) (finds fetches loads : Bool) : Option (Scheduler σ ν × Bool) :=
  match s.current with
  | some i => s.enqueueWork i fetches loads
  | none =>
    if finds then
      match s.next with
      | none => some ({ s with hasWork := false }, true)
      | some i =>
        ((s.jobs i).step (.load, "")).bind fun r =>
          { s.setJob i r with current := some i }.enqueueWork i fetches loads
    else some (s, false)

/-- A step of the current job. -/
def onCurrent (s : Scheduler σ ν) (a : Sys.Action ν × String) : Option (ℕ × Reports ν) :=
  s.current.bind fun i => ((s.jobs i).step a).map fun r => (i, r)

/-- A turn of the scheduler, a step of a worker, or a restart. -/
inductive Action (σ ν : Type*)
  /-- A message to register a job for the namespaces linked to a schema, each of which is linked
  once. -/
  | scheduleMigration (schema : σ) (links : { l : List ν // l.Nodup }) (schemaVersion : ℕ)
    (stores : Bool)
  | getJobStatus
  | work (finds fetches loads : Bool)
  | worker (a : Sys.Action ν) (text : String)
  /-- A worker whose migration ends the transaction it runs in, on the schema database or that of a
  namespace, panics. -/
  | tear (n : Option ν)
  | joinPanicked
  | joinTask
  | joinJob
  | crash

/-- The permits that are taken. -/
def permits (s : Scheduler σ ν) : ℕ :=
  match s.current with
  | none => 0
  | some i => (s.jobs i).sys.permits

/-- The server stops, and starts again with what is stored. -/
def restarted (s : Scheduler σ ν) : Scheduler σ ν :=
  { s with
    jobs := fun i => { (s.jobs i).errors "" .crash with sys := (s.jobs i).sys.crash }
    current := none
    hasWork := true
    tries := 0
    workerPanicked := false
    exited := false }

/-- Take a step, where it is one that can be taken. -/
def step (s : Scheduler σ ν) : Action σ ν → Option (Scheduler σ ν)
  | .scheduleMigration schema links schemaVersion stores =>
    if s.alive then some ((s.scheduleMigration schema links.1 schemaVersion stores).turned true)
    else none
  | .getJobStatus => if s.alive then some (s.turned true) else none
  | .work finds fetches loads =>
    if s.alive && s.hasWork && decide (s.permits < maxConcurrent) then
      (s.work finds fetches loads).map fun p => p.1.turned p.2
    else none
  | .worker a text =>
    if a.ofWorker then (s.onCurrent (a, text)).map fun p => s.setJob p.1 p.2 else none
  | .tear n => s.current.bind fun i =>
    (n.elim (s.jobs i).sys.tearSchema (s.jobs i).sys.tearTask).map fun sys =>
      { s.setJob i { s.jobs i with sys := sys } with workerPanicked := true }
  | .joinPanicked => if s.alive && s.workerPanicked then some { s with exited := true } else none
  | .joinTask =>
    if s.alive then
      (s.onCurrent (.joinTask, "")).map fun p =>
        { (s.setJob p.1 p.2).turned true with
          hasWork := (p.2.sys.job.map p.2.sys.hasMore).getD s.hasWork }
    else none
  | .joinJob =>
    if s.alive then
      (s.onCurrent (.joinJob, "")).map fun p =>
        { (s.setJob p.1 p.2).turned true with
          current := p.2.sys.job.map fun _ => p.1
          hasWork := true }
    else none
  | .crash => some s.restarted

/-- Some worker of the current job has not been joined. -/
def InFlight (s : Scheduler σ ν) : Prop := ∃ i, s.current = some i ∧ (s.jobs i).sys.InFlight

end Scheduler

end SqlAnywhere.Server.Migration
