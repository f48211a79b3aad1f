import SqlAnywhere.Server.Auth
import SqlAnywhere.Server.Migration

/-!
# Blocking the writes of a linked namespace

While a migration is between its dry run and its run, nothing else may change the namespace.  Two
things stand between a program and the database: the flag `block_writes`, which each statement of a
program checks before it is executed, and the write lock of the database, which a statement that
writes needs and a transaction that has written keeps.  The worker of the task waits once for the
lock after the flag is up.

* `shouldBlock` — the check of a statement
* `Sys`, `Action`, `Sys.step` — the connections of the namespace, the worker and the flag
* `Sys.commits` — the steps by which a connection commits changes
* `Sys.Careful`, `Sys.nothing_commits_between` — when nothing commits before the run or the abort
-/

namespace SqlAnywhere.Server.Linked

open Function Option
open Migration (TaskStatus JobStatus prepareTask stepTask)

/-- What the execution of a statement does. -/
inductive Effect
  | read
  /-- `BEGIN`, `BEGIN IMMEDIATE`, or a `SAVEPOINT` outside a transaction -/
  | begin_ (immediate : Bool)
  /-- changes rows or the schema -/
  | write
  /-- `COMMIT`, `END`, or the `RELEASE` of the savepoint that opened the transaction -/
  | commit
  | rollback
  deriving DecidableEq

structure Statement where
  kind : StmtKind
  effect : Effect
  deriving DecidableEq

/-- The fields of `DatabaseConfig` that the check reads. -/
structure Config where
  blockReads : Bool
  blockWrites : Bool

/-- The closure that `CoreConnection::run` gives to `Vm::new`. -/
def shouldBlock (config : Config) (blockWrites : Bool) : StmtKind → Bool
  | .read | .txnBegin => config.blockReads
  | .write => config.blockReads || config.blockWrites || blockWrites
  | .ddl => config.blockReads || config.blockWrites
  | .txnEnd | .release | .savepoint | .detach | .attach _ => false

/-- A connection of a user. -/
structure Conn where
  /-- the statement that has passed its check and is not executed yet -/
  passed : Option Statement
  inTxn : Bool
  /-- the transaction has written -/
  dirty : Bool
  deriving DecidableEq

def Conn.fresh : Conn := ⟨none, false, false⟩

/-- Who holds the write lock of the database. -/
inductive Writer (κ : Type*)
  | user (c : κ)
  | worker
  deriving DecidableEq

/-- Where `try_step_task_inner` is. -/
inductive Stage
  /-- the `IMMEDIATE` transaction that waits for ongoing ones is still to come -/
  | barrier
  | ready
  /-- the transaction of the task has written -/
  | inTxn
  /-- it is committed with this status, and the flag is not lowered yet -/
  | committed (status : TaskStatus)
  deriving DecidableEq

structure Worker where
  oldStatus : TaskStatus
  jobStatus : JobStatus
  stage : Stage
  deriving DecidableEq

/-- One linked namespace during one job: `row` is the status of the job's row in the namespace's own
database. -/
structure Sys (κ : Type*) where
  blockWrites : Bool
  conns : κ → Conn
  writer : Option (Writer κ)
  worker : Option Worker
  row : Option TaskStatus

inductive Action (κ : Type*)
  /-- the check of a statement, with the configuration its program started with -/
  | check (c : κ) (stmt : Statement) (config : Config)
  /-- the execution of the statement that has passed, or the error it ends with -/
  | exec (c : κ) (ok : Bool)
  /-- the connection is dropped, or its transaction is rolled back after a timeout -/
  | drop (c : κ)
  /-- `enqueue_task` -/
  | enqueue (oldStatus : TaskStatus) (jobStatus : JobStatus)
  | barrier (ok : Bool)
  /-- the first statement of the task's transaction, which takes the write lock -/
  | openTxn (ok : Bool)
  | commit (migrates ok : Bool)
  /-- `block_writes.store(false)`, and the task is returned -/
  | finish
  /-- the server stops, and the namespace is loaded again -/
  | restart

variable {κ : Type*} [DecidableEq κ]

def Sys.setConn (s : Sys κ) (c : κ) (conn : Conn) (writer : Option (Writer κ)) : Sys κ :=
  { s with conns := Function.update s.conns c conn, writer := writer }

/-- What holds the lock when `c` has ended its transaction. -/
def Sys.released (s : Sys κ) (c : κ) : Option (Writer κ) :=
  if s.writer = some (.user c) then none else s.writer

/-- A statement is executed without an error. -/
def Sys.execute (s : Sys κ) (c : κ) (effect : Effect) : Option (Sys κ) :=
  let conn := { s.conns c with passed := none }
  match effect with
  | .read => some (s.setConn c conn s.writer)
  | .begin_ immediate =>
    if conn.inTxn then none
    else if immediate then
      if s.writer = none then some (s.setConn c { conn with inTxn := true } (some (.user c)))
      else none
    else some (s.setConn c { conn with inTxn := true } s.writer)
  | .write =>
    if s.writer = none ∨ s.writer = some (.user c) then
      if conn.inTxn then some (s.setConn c { conn with dirty := true } (some (.user c)))
      -- outside a transaction it commits with the statement
      else some (s.setConn c conn s.writer)
    else none
  | .commit | .rollback =>
    if conn.inTxn then some (s.setConn c .fresh (s.released c)) else none

/-- The transaction of `try_step_task_inner`, and the flag after it. -/
def Sys.stepWorker (s : Sys κ) (w : Worker) : Action κ → Option (Sys κ)
  | .barrier ok =>
    if w.stage = .barrier then
      if ok then
        if s.writer = none then some { s with worker := some { w with stage := .ready } } else none
      else some { s with worker := none }
    else none
  | .openTxn ok =>
    if w.stage = .ready then
      if ok then
        if s.writer = none then
          some { s with worker := some { w with stage := .inTxn }, writer := some .worker }
        else none
      else some { s with worker := none }
    else none
  | .commit migrates ok =>
    if w.stage = .inTxn then
      if ok then
        match prepareTask w.jobStatus w.oldStatus s.row with
        | some (some status) =>
          some { s with
            row := some (stepTask status migrates)
            writer := none
            worker := some { w with stage := .committed (stepTask status migrates) } }
        | _ => none
      else some { s with worker := none, writer := none }
    else none
  | .finish =>
    match w.stage with
    | .committed status =>
      some { s with worker := none, blockWrites := s.blockWrites && !status.isFinished }
    | _ => none
  | _ => none

def Sys.hasPendingMigrationTask (s : Sys κ) : Bool := s.row.any (!·.isFinished)

/-- The namespace is loaded again: `PrimaryConfigurator`. -/
def Sys.reload (s : Sys κ) : Sys κ :=
  { s with
    conns := fun _ => .fresh
    writer := none
    worker := none
    blockWrites := s.hasPendingMigrationTask }

def Sys.step (s : Sys κ) : Action κ → Option (Sys κ)
  | .check c stmt config =>
    if (s.conns c).passed = none then
      if shouldBlock config s.blockWrites stmt.kind then some s
      else some (s.setConn c { s.conns c with passed := some stmt } s.writer)
    else none
  | .exec c ok =>
    match (s.conns c).passed with
    | none => none
    | some stmt =>
      if ok then s.execute c stmt.effect
      else some (s.setConn c { s.conns c with passed := none } s.writer)
  | .drop c => some (s.setConn c .fresh (s.released c))
  | .enqueue oldStatus jobStatus =>
    match s.worker with
    | some _ => none
    | none =>
      some { s with
        -- we block the writes before enqueuing the task
        blockWrites := s.blockWrites || oldStatus = .enqueued
        worker := some ⟨oldStatus, jobStatus, if oldStatus = .enqueued then .barrier else .ready⟩ }
  | .restart => some s.reload
  | a => s.worker.bind fun w => s.stepWorker w a

/-- The step commits changes of a user: a write outside a transaction, or the end of a transaction
that has written. -/
def Sys.commits (s : Sys κ) : Action κ → Bool
  | .exec c true =>
    match (s.conns c).passed with
    | some ⟨_, .write⟩ => !(s.conns c).inTxn
    | some ⟨_, .commit⟩ => (s.conns c).dirty
    | _ => false
  | _ => false

/-- The dry run has been recorded as successful, and neither the run nor the abort is done. -/
def Sys.Between (s : Sys κ) : Prop := s.row = some .dryRunSuccess

/-- No changes of a user are committed between the dry run and the run or the abort. -/
def Sys.Excluded (s : Sys κ) (a : Action κ) : Prop :=
  ∀ s', s.step a = some s' → s.commits a = true → ¬ s.Between

/-! ### When nothing commits in between -/

/-- The transaction under way is a dry run. -/
def Sys.DryRuns (s : Sys κ) : Prop :=
  ∃ w, s.worker = some w ∧ w.oldStatus = .enqueued ∧ w.jobStatus ≠ .dryRunFailure

/-- No statement that writes is past its check. -/
def Conn.Settled (conn : Conn) : Prop :=
  ∀ stmt, conn.passed = some stmt → stmt.effect ≠ .write

/-- What the block check leaves to the users: no statement that writes is past its check when a dry
run commits, and until the run or the abort no statement that writes is of another kind than
`write`. -/
def Sys.Careful (s : Sys κ) : Action κ → Prop
  | .check _ stmt _ => s.Between → stmt.effect = .write → stmt.kind = .write
  | .commit _ true => s.DryRuns → ∀ c, (s.conns c).Settled
  | _ => True

/-- What is known of a worker. -/
structure WorkerOk (s : Sys κ) (w : Worker) : Prop where
  locked : w.stage = .inTxn → s.writer = some .worker
  raised : w.oldStatus = .enqueued → (∀ status, w.stage ≠ .committed status) → s.blockWrites = true
  recorded : ∀ status, w.stage = .committed status → s.row = some status

structure Inv (s : Sys κ) : Prop where
  dirty : ∀ c, (s.conns c).dirty = true → s.writer = some (.user c)
  worker : ∀ w, s.worker = some w → WorkerOk s w
  raised : s.Between → s.blockWrites = true
  settled : s.Between → ∀ c, (s.conns c).Settled
  clean : s.Between → ∀ c, (s.conns c).dirty = false
  /-- a row is stepped in the transaction that inserts it -/
  stepped : s.row ≠ some .enqueued

variable {s s' : Sys κ} {c : κ} {conn : Conn} {writer : Option (Writer κ)} {w : Worker}

/-- The lock is neither taken from another one nor given to one. -/
def Hands (c : κ) (before after : Option (Writer κ)) : Prop :=
  after = before ∨ ((before = none ∨ before = some (.user c)) ∧
    (after = none ∨ after = some (.user c)))

omit [DecidableEq κ] in
theorem Hands.kept {before after : Option (Writer κ)} {w : Writer κ} (h : Hands c before after)
    (hw : before = some w) (hne : w ≠ .user c) : after = some w := by
  rcases h with h | ⟨h | h, -⟩
  · rw [h, hw]
  · simp [hw] at h
  · rw [hw] at h
    exact absurd (some.inj h) hne

theorem hands_released (s : Sys κ) (c : κ) : Hands c s.writer (s.released c) := by
  unfold Sys.released
  split_ifs with h
  · exact Or.inr ⟨Or.inr h, Or.inl rfl⟩
  · exact Or.inl rfl

variable (h : Inv s)
include h

theorem Inv.setConn (hands : Hands c s.writer writer)
    (hdirty : conn.dirty = true → writer = some (.user c)) (hsettled : s.Between → conn.Settled)
    (hclean : s.Between → conn.dirty = false) : Inv (s.setConn c conn writer) where
  __ := h
  dirty := (forall_update_iff s.conns fun c' conn => conn.dirty = true → writer = some (.user c')).2
    ⟨hdirty, fun c' hne hc' => hands.kept (h.dirty c' hc') (fun heq => hne (Writer.user.inj heq))⟩
  worker := by
    intro w hw
    have hok := h.worker w hw
    exact ⟨fun hstage => hands.kept (hok.locked hstage) nofun, hok.raised, hok.recorded⟩
  settled := fun hbetween => (forall_update_iff s.conns fun _ => Conn.Settled).2
    ⟨hsettled hbetween, fun c' _ => h.settled hbetween c'⟩
  clean := fun hbetween => (forall_update_iff s.conns fun _ conn => conn.dirty = false).2
    ⟨hclean hbetween, fun c' _ => h.clean hbetween c'⟩

theorem Inv.passed {inTxn : Bool} (hands : Hands c s.writer writer)
    (hdirty : (s.conns c).dirty = true → writer = some (.user c)) :
    Inv (s.setConn c ⟨none, inTxn, (s.conns c).dirty⟩ writer) :=
  h.setConn hands hdirty (fun _ => nofun) (fun hbetween => h.clean hbetween c)

theorem Inv.fresh : Inv (s.setConn c .fresh (s.released c)) :=
  h.setConn (hands_released s c) nofun (fun _ => nofun) (fun _ => rfl)

theorem Inv.execute {stmt : Statement} (hpassed : (s.conns c).passed = some stmt)
    (hexec : s.execute c stmt.effect = some s') : Inv s' := by
  have hsame : Hands c s.writer s.writer := Or.inl rfl
  cases heffect : stmt.effect with
  | read =>
    simp only [heffect, Sys.execute, some.injEq] at hexec
    subst hexec
    exact h.passed hsame (h.dirty c)
  | begin_ immediate =>
    simp only [heffect, Sys.execute] at hexec
    split_ifs at hexec with _ himmediate hfree
    · cases hexec
      exact h.passed (Or.inr ⟨Or.inl hfree, Or.inr rfl⟩) (fun _ => rfl)
    · cases hexec
      exact h.passed hsame (h.dirty c)
  | write =>
    simp only [heffect, Sys.execute] at hexec
    split_ifs at hexec with hlock htxn
    · cases hexec
      -- between the dry run and the run no statement that writes is past its check
      have hnot : s.Between → False := fun hbetween => h.settled hbetween c stmt hpassed heffect
      exact h.setConn (Or.inr ⟨hlock, Or.inr rfl⟩) (fun _ => rfl)
        (fun hbetween => (hnot hbetween).elim) (fun hbetween => (hnot hbetween).elim)
    · cases hexec
      exact h.passed hsame (h.dirty c)
  | commit | rollback =>
    simp only [heffect, Sys.execute] at hexec
    split_ifs at hexec
    cases hexec
    exact h.fresh

theorem Inv.check {stmt : Statement} {config : Config}
    (hcareful : s.Careful (.check c stmt config))
    (hstep : s.step (.check c stmt config) = some s') : Inv s' := by
  simp only [Sys.step] at hstep
  split_ifs at hstep with _ hblock
  · cases hstep
    exact h
  · cases hstep
    refine h.setConn (Or.inl rfl) (h.dirty c) ?_ (fun hbetween => h.clean hbetween c)
    intro hbetween stmt' hstmt' hwrite
    cases hstmt'
    -- the flag is up, so a statement of the kind `write` does not pass
    refine hblock ?_
    rw [hcareful hbetween hwrite, h.raised hbetween]
    exact Bool.or_true _

omit h

/-! ### The worker -/

theorem stepTask_ne_enqueued (status : TaskStatus) (migrates : Bool) :
    stepTask status migrates ≠ .enqueued := by
  cases status <;> cases migrates <;> nofun

/-- Only a dry run leaves a row that says that the dry run has succeeded. -/
theorem dryRuns_of_stepTask {row : Option TaskStatus} {status : TaskStatus}
    {migrates : Bool} (hrow : row ≠ some .enqueued)
    (hprepare : prepareTask w.jobStatus w.oldStatus row = some (some status))
    (hstatus : stepTask status migrates = .dryRunSuccess) :
    w.oldStatus = .enqueued ∧ w.jobStatus ≠ .dryRunFailure := by
  unfold prepareTask at hprepare
  split_ifs at hprepare with hjob hold hrun hsuccess
  · obtain rfl := some.inj (some.inj hprepare)
    cases hstatus
  · exact ⟨hold, hjob⟩
  · obtain rfl := some.inj (some.inj hprepare)
    cases migrates <;> cases hstatus
  · cases hprepare
    cases status with
    | enqueued => exact absurd rfl hrow
    | dryRunSuccess => exact absurd rfl hsuccess
    | run => cases migrates <;> cases hstatus
    | dryRunFailure | success | failure => cases hstatus

section

omit [DecidableEq κ]

include h

theorem Inv.setWorker {worker : Option Worker}
    (hworker : ∀ w, worker = some w → WorkerOk s w) : Inv { s with worker := worker } where
  __ := h
  worker := fun w hw => ⟨(hworker w hw).locked, (hworker w hw).raised, (hworker w hw).recorded⟩

/-- While the worker has the lock, or nobody, no transaction of a user has written. -/
theorem Inv.not_dirty (hwriter : ∀ c, s.writer ≠ some (.user c)) (c : κ) :
    (s.conns c).dirty ≠ true :=
  fun hdirty => hwriter c (h.dirty c hdirty)

variable (hw : s.worker = some w)
include hw

theorem Inv.barrier {ok : Bool}
    (hstep : s.stepWorker w (.barrier ok) = some s') : Inv s' := by
  simp only [Sys.stepWorker] at hstep
  split_ifs at hstep with hstage hok hfree
  · cases hstep
    refine h.setWorker ?_
    rintro _ ⟨⟩
    exact ⟨nofun, fun hold _ => (h.worker w hw).raised hold (by rw [hstage]; nofun), nofun⟩
  · cases hstep
    exact h.setWorker nofun

theorem Inv.openTxn {ok : Bool}
    (hstep : s.stepWorker w (.openTxn ok) = some s') : Inv s' := by
  simp only [Sys.stepWorker] at hstep
  split_ifs at hstep with hstage hok hfree
  · cases hstep
    exact { h with
      dirty := fun c hc => absurd hc (h.not_dirty (by simp [hfree]) c)
      worker := by
        rintro _ ⟨⟩
        exact ⟨fun _ => rfl, fun hold _ => (h.worker w hw).raised hold (by rw [hstage]; nofun),
          nofun⟩ }
  · cases hstep
    exact h.setWorker nofun

theorem Inv.commit {migrates ok : Bool}
    (hcareful : s.Careful (.commit migrates ok))
    (hstep : s.stepWorker w (.commit migrates ok) = some s') : Inv s' := by
  simp only [Sys.stepWorker] at hstep
  split_ifs at hstep with hstage hok
  · have hclean := h.not_dirty (by simp [(h.worker w hw).locked hstage])
    split at hstep
    swap
    · cases hstep
    rename_i status hprepare
    cases hstep
    subst hok
    have hdry : stepTask status migrates = .dryRunSuccess →
        w.oldStatus = .enqueued ∧ w.jobStatus ≠ .dryRunFailure :=
      dryRuns_of_stepTask h.stepped hprepare
    exact {
      dirty := fun c hc => absurd hc (hclean c)
      worker := by
        rintro _ ⟨⟩
        refine ⟨nofun, fun _ hnot => absurd rfl (hnot (stepTask status migrates)), ?_⟩
        intro status' hstatus'
        rw [Stage.committed.inj hstatus']
      -- the writes were blocked when the task was enqueued
      raised := fun hbetween => (h.worker w hw).raised (hdry (some.inj hbetween)).1
        (by rw [hstage]; nofun)
      settled := fun hbetween => hcareful ⟨w, hw, hdry (some.inj hbetween)⟩
      clean := fun _ c => eq_false_of_ne_true (hclean c)
      stepped := fun heq => stepTask_ne_enqueued status migrates (some.inj heq) }
  · cases hstep
    have hclean := h.not_dirty (by simp [(h.worker w hw).locked hstage])
    exact { h with
      dirty := fun c hc => absurd hc (hclean c)
      worker := nofun }

theorem Inv.finish
    (hstep : s.stepWorker w .finish = some s') : Inv s' := by
  simp only [Sys.stepWorker] at hstep
  split at hstep
  swap
  · cases hstep
  rename_i status hstage
  cases hstep
  have hrecorded := (h.worker w hw).recorded status hstage
  exact { h with
    worker := nofun
    raised := by
      intro hbetween
      -- a dry run does not lower the flag
      obtain rfl : status = .dryRunSuccess := by
        rw [Sys.Between] at hbetween
        exact some.inj (hrecorded.symm.trans hbetween)
      rw [h.raised hbetween]
      rfl }

omit hw

theorem Inv.enqueue (oldStatus : TaskStatus) (jobStatus : JobStatus) :
    Inv { s with
      blockWrites := s.blockWrites || oldStatus = .enqueued
      worker := some ⟨oldStatus, jobStatus,
        if oldStatus = .enqueued then .barrier else .ready⟩ } where
  __ := h
  worker := by
    rintro _ ⟨⟩
    refine ⟨?_, ?_, ?_⟩
    · intro hstage
      split_ifs at hstage
    · intro hold _
      simp only [show oldStatus = .enqueued from hold, decide_true, Bool.or_true]
    · intro status hstage
      split_ifs at hstage
  raised := fun hbetween => by simp only [h.raised hbetween, Bool.true_or]

/-- A namespace that is loaded again has its writes blocked if its migration is not finished. -/
theorem Inv.reload : Inv s.reload where
  dirty := nofun
  worker := nofun
  raised := by
    intro hbetween
    have hrow : s.row = some .dryRunSuccess := hbetween
    simp only [Sys.reload, Sys.hasPendingMigrationTask, hrow]
    rfl
  settled := fun _ _ => nofun
  clean := fun _ _ => rfl
  stepped := h.stepped

end

/-! ### Steps and runs -/

theorem Inv.step (h : Inv s) {a : Action κ} (hcareful : s.Careful a)
    (hstep : s.step a = some s') : Inv s' := by
  cases a with
  | check c stmt config => exact h.check hcareful hstep
  | exec c ok =>
    simp only [Sys.step] at hstep
    split at hstep
    · cases hstep
    rename_i stmt hpassed
    split_ifs at hstep
    · exact h.execute hpassed hstep
    · cases hstep
      exact h.passed (Or.inl rfl) (h.dirty c)
  | drop c =>
    cases hstep
    exact h.fresh
  | enqueue oldStatus jobStatus =>
    simp only [Sys.step] at hstep
    split at hstep
    · cases hstep
    · cases hstep
      exact h.enqueue oldStatus jobStatus
  | barrier ok =>
    obtain ⟨w, hw, hstep⟩ := bind_eq_some_iff.1 hstep
    exact h.barrier hw hstep
  | openTxn ok =>
    obtain ⟨w, hw, hstep⟩ := bind_eq_some_iff.1 hstep
    exact h.openTxn hw hstep
  | commit migrates ok =>
    obtain ⟨w, hw, hstep⟩ := bind_eq_some_iff.1 hstep
    exact h.commit hw hcareful hstep
  | finish =>
    obtain ⟨w, hw, hstep⟩ := bind_eq_some_iff.1 hstep
    exact h.finish hw hstep
  | restart =>
    cases hstep
    exact h.reload

omit [DecidableEq κ] in
/-- Between the dry run and the run no transaction has written and no statement that writes is past
its check, so nothing is left to commit. -/
theorem Inv.not_between (h : Inv s) {a : Action κ} (hcommits : s.commits a = true) :
    ¬ s.Between := by
  intro hbetween
  unfold Sys.commits at hcommits
  split at hcommits
  · rename_i c
    split at hcommits
    · rename_i kind hpassed
      exact h.settled hbetween c _ hpassed rfl
    · simp [h.clean hbetween c] at hcommits
    · cases hcommits
  · cases hcommits

/-- Before the job has a task on the namespace: whatever the users are doing, only a transaction that
holds the lock has written. -/
structure Sys.Before (s : Sys κ) : Prop where
  row : s.row = none
  worker : s.worker = none
  dirty : ∀ c, (s.conns c).dirty = true → s.writer = some (.user c)

omit [DecidableEq κ] in
theorem Sys.Before.inv (h : s.Before) : Inv s where
  dirty := h.dirty
  worker := by rw [h.worker]; nofun
  raised := by rw [Sys.Between, h.row]; nofun
  settled := by rw [Sys.Between, h.row]; nofun
  clean := by rw [Sys.Between, h.row]; nofun
  stepped := by rw [h.row]; nofun

/-- **Nothing commits between a dry run and its run**: in a run of users, worker and restarts in
which no statement that writes is past its check when a dry run commits, and in which after that
only statements of the kind `write` do, no step commits changes of a user between the dry run and
the run or the abort. -/
theorem Sys.nothing_commits_between (s : Sys κ) (hs : s.Before) (actions : List (Action κ))
    (hcareful : Run.Along Sys.step Sys.Careful s actions) :
    Run.Along Sys.step Sys.Excluded s actions :=
  Run.along_imp (fun _ _ h _ _ _ hcommits => Inv.not_between h hcommits)
    (fun _ _ _ h hok hstep => Inv.step h hok hstep) hs.inv hcareful

/-- A linked namespace with two connections. -/
def Sys.idle : Sys Bool := ⟨false, fun _ => .fresh, none, none, none⟩

theorem Sys.before_idle : Sys.idle.Before := ⟨rfl, rfl, nofun⟩

/-- Nothing is blocked by the configuration. -/
def Config.open_ : Config := ⟨false, false⟩

/-- A transaction that has written holds the barrier up; a write during the migration is blocked,
and the same write after the run commits. -/
def Sys.migrated : List (Action Bool) :=
  [ .check true ⟨.txnBegin, .begin_ false⟩ .open_, .exec true true,
    .check true ⟨.write, .write⟩ .open_, .exec true true,
    .enqueue .enqueued .waitingDryRun,
    .check true ⟨.txnEnd, .commit⟩ .open_, .exec true true,
    .barrier true, .openTxn true, .commit true true, .finish,
    .check false ⟨.write, .write⟩ .open_, .restart,
    .enqueue .dryRunSuccess .waitingRun, .openTxn true, .commit true true, .finish,
    .check false ⟨.write, .write⟩ .open_, .exec false true ]

instance (s : Sys Bool) (a : Action Bool) : Decidable (s.Careful a) := by
  unfold Sys.Careful Sys.Between Sys.DryRuns Conn.Settled
  split <;> infer_instance

theorem Sys.nothing_commits_between_migrated :
    Sys.idle.Before ∧ (Run.exec Sys.step Sys.idle Sys.migrated).map (·.row) = some (some .success) ∧
      Run.Along Sys.step Sys.Excluded Sys.idle Sys.migrated := by
  refine ⟨Sys.before_idle, by decide +kernel, ?_⟩
  refine Sys.nothing_commits_between _ Sys.before_idle _ ?_
  decide +kernel

/-- A write passes its check, the flag goes up, nobody holds the lock, the dry run succeeds, and
then the write is executed. -/
def Sys.overtaken : List (Action Bool) :=
  [ .check true ⟨.write, .write⟩ .open_,
    .enqueue .enqueued .waitingDryRun, .barrier true, .openTxn true, .commit true true,
    .exec true true ]

/-- A change of the schema after the dry run. -/
def Sys.altered : List (Action Bool) :=
  [ .enqueue .enqueued .waitingDryRun, .barrier true, .openTxn true, .commit true true, .finish,
    .check true ⟨.ddl, .write⟩ .open_, .exec true true ]

instance (s : Sys Bool) (a : Action Bool) : Decidable (s.Excluded a) := by
  unfold Sys.Excluded Sys.Between
  infer_instance

/-- **Two ways past the flag**: a statement that passed its check before the flag went up, and a
statement of the kind `ddl`, for which the check does not look at the flag. -/
theorem Sys.commits_between :
    Sys.idle.Before ∧ ¬ Run.Along Sys.step Sys.Excluded Sys.idle Sys.overtaken ∧
      ¬ Run.Along Sys.step Sys.Excluded Sys.idle Sys.altered :=
  ⟨Sys.before_idle, by decide +kernel, by decide +kernel⟩

end SqlAnywhere.Server.Linked
