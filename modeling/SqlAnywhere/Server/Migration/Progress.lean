import Mathlib.Algebra.Ring.Nat
import Mathlib.Algebra.Order.BigOperators.Group.List
import Mathlib.Algebra.Order.Group.Nat
import SqlAnywhere.Server.Migration.Phases.Workers

/-!
# A migration job that meets no error gets done

* `Sys.Tracked` — every task of the table `enqueued_tasks` is in the batch or has a worker
* `Sys.Effective` — no worker has met an error
* `Sys.rank` — what is left to do
* `Sys.Phased.advances` — while the job is not finished, some step that meets no error leaves less
  to do
-/

namespace SqlAnywhere.Server.Migration.Sys

open List Option
open Function (update_self update_of_ne)

variable {ν : Type*} [DecidableEq ν] {s s' : Sys ν} {n : ν} {passes : ν → Bool} {job : Job}
  {w : JobWorker} {a : Action ν}

/-- A step in which no operation meets an error, and the server does not stop. -/
def Action.succeeds : Action ν → Bool
  | .load | .joinTask | .joinJob => true
  | .work loads => loads
  | .taskTxn _ commits _ backsUp => commits && backsUp
  | .taskMeta _ stores => stores
  | .schemaTxn commits _ backsUp => commits && backsUp
  | .jobMeta stores backsUp => stores && backsUp
  | .crash => false

/-- A step in which no namespace fails to load and no status of a task fails to be stored. -/
def Action.tracks : Action ν → Bool
  | .work loads => loads
  | .taskMeta _ stores => stores
  | _ => true

omit [DecidableEq ν] in
theorem Action.tracks_of_succeeds (h : a.succeeds = true) : a.tracks = true := by
  cases a with
  | work | taskMeta => exact h
  | load | taskTxn | schemaTxn | jobMeta | joinTask | joinJob | crash => rfl

/-! ### The tasks that are out -/

/-- A task is in the table `enqueued_tasks` only as long as the batch or a worker has it. -/
def Tracked (s : Sys ν) : Prop :=
  ∀ n, s.enqueued n = true → (∃ p ∈ s.batch, p.1 = n) ∨ s.workers n ≠ none

/-- No worker that is out has met an error. -/
structure Effective (s : Sys ν) : Prop where
  stepped : ∀ n w, s.workers n = some w → w.stepped ≠ some none
  done : ∀ step status, s.jobWorker = some ⟨step, .done status⟩ → status = step.target

omit [DecidableEq ν] in
theorem Tracked.crash : s.crash.Tracked := nofun

section

variable (h : s.Tracked)
include h

theorem Tracked.fetch (hempty : s.batch = []) (status : JobStatus) :
    (s.fetch status).Tracked := by
  intro n henq
  rcases Bool.or_eq_true_iff.1 henq with henq | hnew
  · rcases h n henq with ⟨p, hp, -⟩ | hw
    · simp [hempty] at hp
    · exact Or.inr hw
  · refine Or.inl ⟨(n, s.tasks n), ?_, rfl⟩
    exact mem_reverse.2 (mem_map.2 ⟨n, of_decide_eq_true hnew, rfl⟩)

theorem Tracked.spawnTask (job : Job) : (s.spawnTask job true).Tracked := by
  unfold Sys.spawnTask
  split
  · exact h
  rename_i m status rest hbatch
  intro n henq
  show (∃ p ∈ rest, p.1 = n) ∨ Function.update s.workers m _ n ≠ none
  by_cases hnm : n = m
  · subst hnm
    rw [update_self]
    exact Or.inr nofun
  · rw [update_of_ne hnm]
    refine (h n henq).imp_left ?_
    rintro ⟨p, hp, rfl⟩
    rw [hbatch] at hp
    rcases mem_cons.1 hp with rfl | hp
    · exact absurd rfl hnm
    · exact ⟨p, hp, rfl⟩

theorem Tracked.enqueueTask (job : Job) : (s.enqueueTask job true).Tracked := by
  unfold Sys.enqueueTask
  split
  · next hempty => exact (h.fetch (isEmpty_iff.1 hempty) job.status).spawnTask job
  · exact h.spawnTask job

theorem Tracked.work (job : Job) : (s.work job true).Tracked := by
  have hworks := s.works job true
  generalize s.work job true = s' at hworks ⊢
  cases hworks with
  | enqueues => exact h.enqueueTask job
  | steps | waits | stops => exact h

theorem Tracked.setWorker (w : TaskWorker) :
    (s.setWorker n (some w)).Tracked := by
  intro m henq
  exact (h m henq).imp_right fun hw => update_ne_none (Or.inl hw)

theorem Tracked.taskMeta (w : TaskWorker) (stepped : Option TaskStatus) :
    (s.taskMeta n w stepped true).Tracked := by
  intro m henq
  have henq : Function.update s.enqueued n false m = true := henq
  have hmn : m ≠ n := by
    rintro rfl
    simp [update_self] at henq
  rw [update_of_ne hmn] at henq
  refine (h m henq).imp_right fun hw => ?_
  exact (update_of_ne hmn ..).trans_ne hw

end

omit [DecidableEq ν] in
theorem Tracked.migrateSchema (h : s.Tracked) (migrates : Bool) :
    (s.migrateSchema migrates).Tracked := by
  unfold Sys.migrateSchema
  split <;> exact h

theorem Tracked.step (h : s.Tracked) (hp : s.Phased passes) (hb : s.Bookkept)
    (htracks : a.tracks = true) (hstep : s.step a = some s') : s'.Tracked := by
  cases step_iff.1 hstep with
  | load =>
    unfold Sys.load
    split <;> exact h
  | work job loads =>
    obtain rfl : loads = true := htracks
    exact h.work job
  | taskTxn n w commits migrates backsUp hw =>
    obtain ⟨status, hprep, -⟩ := hp.prepared hb hw
    simp only [Sys.taskTxn, hprep]
    cases commits with
    | false => exact h.setWorker _
    | true => exact Tracked.setWorker (s := s.commitTask n status migrates) h _
  | taskMeta n w stepped stores =>
    obtain rfl : stores = true := htracks
    exact h.taskMeta w stepped
  | schemaTxn commits migrates backsUp =>
    cases commits with
    | false => exact h
    | true =>
      cases backsUp with
      | false | true => exact h.migrateSchema migrates
  | jobMeta w stores backsUp =>
    unfold Sys.jobMeta
    split <;> exact h
  | joinTask n old new rest =>
    unfold Sys.joinTask
    split <;> exact h
  | joinJob step status =>
    unfold Sys.joinJob
    split
    · exact h
    · split <;> exact h
  | crash =>
    exact Tracked.crash

/-! ### What the steps of the job ask for -/

theorem Phased.allows (h : s.Phased passes) (hb : s.Bookkept)
    (hw : s.jobWorker = some w) : s.allows w.step = true := by
  have hok := h.jobWorker w hw
  have hp := hb.phase_of_worker hw
  obtain ⟨job, hjob⟩ := isSome_iff_exists.1 (hb.waiting hw)
  obtain ⟨step, phase⟩ := w
  cases step with
  | failure | waitingRun | dryRunFailure | runSuccess => rfl
  | dryRunSuccess =>
    obtain ⟨htasks, hresults, -, -⟩ := hok
    have hstored : s.jobStatus = .waitingDryRun ∨ s.jobStatus = .dryRunSuccess := by
      rcases (h.phase _ hp).waits rfl with hst | hst | ⟨-, n, hn, hseen⟩
      · exact Or.inl hst
      · exact Or.inr hst
      -- the scheduler has counted every result
      have hleads := hb.leads hjob
      rw [hresults] at hleads
      have heq : s.seen = s.tasks := hleads
      simp [heq, htasks n hn] at hseen
    have hall : (s.links.all fun n => s.tasks n == .dryRunSuccess) = true :=
      all_eq_true.2 fun n hn => beq_iff_eq.2 (htasks n hn)
    unfold Sys.allows
    rw [hall]
    rcases hstored with hst | hst
    all_goals
      rw [hst]
      rfl

theorem Phased.jobMeta_true (h : s.Phased passes) (hb : s.Bookkept) (hw : s.jobWorker = some w) :
    s.jobMeta w true true = { s with jobStatus := w.step.target }.returnJob w w.step.target := by
  unfold Sys.jobMeta
  rw [h.allows hb hw]
  rfl

theorem Effective.step (h : s.Effective) (hp : s.Phased passes) (hb : s.Bookkept)
    (hsucceeds : a.succeeds = true) (hstep : s.step a = some s') :
    s'.Effective := by
  cases step_iff.1 hstep with
  | load =>
    unfold Sys.load
    split
    · exact h
    · exact { h with }
  | work job loads _ hjob =>
    have hsent := hp.sent_work hjob loads
    constructor
    · intro n w hw
      rcases hsent.workers n w hw with hw | hnone
      · exact h.stepped n w hw
      · rw [hnone]
        rintro ⟨⟩
    · intro step status hw
      rcases hsent.jobWorker with heq | ⟨step', heq⟩
      · rw [heq] at hw
        exact h.done step status hw
      · simp [heq] at hw
  | taskTxn n w commits migrates backsUp hw =>
    obtain ⟨status, hprep, -⟩ := hp.prepared hb hw
    obtain ⟨rfl, rfl⟩ := Bool.and_eq_true_iff.1 hsucceeds
    simp only [Sys.taskTxn, hprep]
    refine ⟨fun m w' hwm => ?_, h.done⟩
    rcases of_update_eq_some hwm with ⟨rfl, ⟨⟩⟩ | ⟨-, hwm⟩
    · rintro ⟨⟩
    · exact h.stepped m w' hwm
  | taskMeta n w stepped stores =>
    obtain rfl : stores = true := hsucceeds
    refine ⟨fun m w' hwm => ?_, h.done⟩
    rcases of_update_eq_some hwm with ⟨-, ⟨⟩⟩ | ⟨-, hwm⟩
    exact h.stepped m w' hwm
  | schemaTxn commits migrates backsUp =>
    obtain ⟨rfl, rfl⟩ := Bool.and_eq_true_iff.1 hsucceeds
    refine ⟨?_, by rintro _ _ ⟨⟩⟩
    show ∀ n w, (s.migrateSchema migrates).workers n = some w → _
    unfold Sys.migrateSchema
    split <;> exact h.stepped
  | jobMeta w stores backsUp hw =>
    obtain ⟨rfl, rfl⟩ := Bool.and_eq_true_iff.1 hsucceeds
    rw [hp.jobMeta_true hb hw]
    refine ⟨h.stepped, ?_⟩
    rintro step status ⟨⟩
    rfl
  | joinTask n old new rest =>
    unfold Sys.joinTask
    split <;> exact { h with }
  | joinJob step status =>
    unfold Sys.joinJob
    split
    · exact { h with }
    · split <;> exact ⟨h.stepped, by rintro _ _ ⟨⟩⟩
  | crash => cases hsucceeds

/-! ### What is left to do -/

/-- How far a task is from its end. -/
def weight : TaskStatus → ℕ
  | .enqueued => 2
  | .dryRunSuccess | .dryRunFailure | .run => 1
  | .success | .failure => 0

/-- What is left to do for a task: the steps it has before it, and how far the next one is. -/
def taskRank (s : Sys ν) (n : ν) : ℕ :=
  8 * weight (s.tasks n) +
    match s.workers n with
    | some w => if w.stepped.isSome then 1 else 2
    | none => if s.enqueued n then 3 else 4

/-- How far a phase is from the end of the job. -/
def stage : JobStatus → ℕ
  | .waitingDryRun => 24
  | .dryRunSuccess => 16
  | .waitingRun | .dryRunFailure => 8
  | .runSuccess | .runFailure | .waitingTransition => 0

/-- How far a worker of the job is. -/
def JobPhase.rank : JobPhase → ℕ
  | .start => 3
  | .migrated => 2
  | .done _ => 1

/-- What is left to do for the job. -/
def jobRank (s : Sys ν) : ℕ :=
  match s.job, s.jobWorker with
  | none, _ => 30
  | some job, none => stage job.status
  | some _, some w => stage w.step.fallback - 4 + JobPhase.rank w.phase

/-- What is left to do. -/
def rank (s : Sys ν) : ℕ := 2 * (s.links.map s.taskRank).sum + s.results.length + s.jobRank

/-- Something is done for one task, and nothing undone for another. -/
theorem rank_lt_of_taskRank (hlinks : s'.links = s.links) (hn : n ∈ s.links)
    (hlt : s'.taskRank n < s.taskRank n) (hle : ∀ m, m ≠ n → s'.taskRank m ≤ s.taskRank m)
    (hrest : s'.results.length + s'.jobRank ≤ s.results.length + s.jobRank + 1) :
    s'.rank < s.rank := by
  have hall : ∀ m ∈ s.links, s'.taskRank m ≤ s.taskRank m := by
    intro m _
    by_cases hmn : m = n
    · rw [hmn]
      exact le_of_lt hlt
    · exact hle m hmn
  have hsum := sum_lt_sum s'.taskRank s.taskRank hall ⟨n, hn, hlt⟩
  unfold rank
  rw [hlinks]
  omega

omit [DecidableEq ν] in
theorem rank_lt_of_rest (hlinks : s'.links = s.links)
    (hle : ∀ m ∈ s.links, s'.taskRank m ≤ s.taskRank m)
    (hrest : s'.results.length + s'.jobRank < s.results.length + s.jobRank) :
    s'.rank < s.rank := by
  have hsum := sum_le_sum hle
  unfold rank
  rw [hlinks]
  omega

/-- Some step that meets no error leaves less to do. -/
def Advances (passes : ν → Bool) (s : Sys ν) : Prop :=
  ∃ a s', a.succeeds = true ∧ s.Careful passes a ∧ s.step a = some s' ∧ s'.rank < s.rank

omit [DecidableEq ν] in
theorem jobRank_of_worker (hjob : s.job = some job)
    (hw : s.jobWorker = some w) : s.jobRank = stage w.step.fallback - 4 + JobPhase.rank w.phase := by
  simp only [jobRank, hjob, hw]

omit [DecidableEq ν] in
theorem jobRank_of_job (hjob : s.job = some job) (hw : s.jobWorker = none) :
    s.jobRank = stage job.status := by
  simp only [jobRank, hjob, hw]

omit [DecidableEq ν] in
/-- A task that is returned is nearer its end. -/
theorem weight_lt {jobStatus : JobStatus} {old new : TaskStatus} (htakes : Takes jobStatus old)
    (hold : old.isFinished = false) (hret : Returns jobStatus new) : weight new < weight old := by
  cases jobStatus with
  | waitingDryRun =>
    obtain rfl : old = .enqueued := htakes
    rcases hret with rfl | rfl <;> decide
  | waitingRun =>
    obtain rfl : old = .dryRunSuccess := htakes
    obtain rfl : new = .success := hret
    decide
  | dryRunFailure =>
    obtain rfl : new = .failure := hret
    cases old with
    | success | failure => cases hold
    | enqueued | dryRunSuccess | dryRunFailure | run => decide
  | dryRunSuccess | runSuccess | runFailure | waitingTransition => exact htakes.elim

theorem rank_spawnTask_lt (hb : s.Bookkept) (hbatch : s.batch ≠ []) :
    (s.spawnTask job true).rank < s.rank := by
  unfold Sys.spawnTask
  split
  · next hnil => exact absurd hnil hbatch
  rename_i n status rest hcons
  have hok := hb.batch (p := (n, status)) (by rw [hcons]; exact mem_cons_self ..)
  rw [if_pos rfl]
  refine rank_lt_of_taskRank rfl hok.mem ?_ (fun m hmn => ?_) (Nat.le_succ _)
  · have hfree : s.workers n = none := hok.free
    have henq : s.enqueued n = true := hok.enqueued
    simp only [taskRank, update_self, hfree, henq]
    exact Nat.add_lt_add_left (Nat.lt_succ_self 2) _
  · simp only [taskRank, update_of_ne hmn]
    exact le_refl _

theorem rank_fetch_le (status : JobStatus) : (s.fetch status).rank ≤ s.rank := by
  have hle : ∀ m ∈ s.links, (s.fetch status).taskRank m ≤ s.taskRank m := by
    intro m _
    refine Nat.add_le_add_left ?_ _
    show (match s.workers m with
      | some w => if w.stepped.isSome then 1 else 2
      | none => if (s.enqueued m || decide (m ∈ s.nextBatch status)) = true then 3 else 4) ≤ _
    cases s.workers m with
    | some w => exact le_refl _
    | none =>
      cases s.enqueued m with
      | true => exact le_refl _
      | false =>
        show (if decide (m ∈ s.nextBatch status) = true then 3 else 4) ≤ 4
        split <;> decide
  exact Nat.add_le_add_right (Nat.add_le_add_right (Nat.mul_le_mul_left 2 (sum_le_sum hle)) _) _

omit [DecidableEq ν] in
/-- While no task is out, one that the phase wants is found. -/
theorem Tracked.nextBatch_ne_nil (ht : s.Tracked) (hbatch : s.batch = [])
    (hworkers : ∀ n, s.workers n = none) {status : JobStatus}
    (hwanted : ∃ n ∈ s.links, wanted status (s.tasks n) = true) : s.nextBatch status ≠ [] := by
  obtain ⟨n, hn, hwanted⟩ := hwanted
  have henq : s.enqueued n = false := by
    rw [← Bool.not_eq_true]
    intro henq
    rcases ht n henq with ⟨p, hp, -⟩ | hw
    · simp [hbatch] at hp
    · exact hw (hworkers n)
  have hmem : n ∈ s.links.filter fun n => wanted status (s.tasks n) && !s.enqueued n :=
    mem_filter.2 ⟨hn, by rw [hwanted, henq]; rfl⟩
  -- the first tasks of a list that has one
  unfold Sys.nextBatch
  rw [ne_eq, take_eq_nil_iff]
  rintro (hzero | hnil)
  · cases hzero
  · simp [hnil] at hmem

theorem Tracked.rank_enqueueTask_lt (ht : s.Tracked) (hb : s.Bookkept)
    (hjob : s.job = some job) (hworkers : ∀ n, s.workers n = none)
    (hwanted : ∃ n ∈ s.links, wanted job.status (s.tasks n) = true) :
    (s.enqueueTask job true).rank < s.rank := by
  unfold Sys.enqueueTask
  split
  · next hempty =>
    refine lt_of_lt_of_le (rank_spawnTask_lt (hb.fetch hjob job.status) ?_)
      (rank_fetch_le job.status)
    show ((s.nextBatch job.status).map fun n => (n, s.tasks n)).reverse ≠ []
    rw [ne_eq, reverse_eq_nil_iff, map_eq_nil_iff]
    exact ht.nextBatch_ne_nil (isEmpty_iff.1 hempty) hworkers hwanted
  · next hempty => exact rank_spawnTask_lt hb fun hnil => hempty (by rw [hnil]; rfl)

theorem exists_of_not_all {status : TaskStatus}
    (h : ¬ job.progressAll status = true) : ∃ other, other ≠ status ∧ job.progress other ≠ 0 := by
  unfold Job.progressAll at h
  rw [List.all_eq_true] at h
  simp only [Bool.or_eq_true, beq_iff_eq, not_forall, not_or] at h
  obtain ⟨other, -, hne, hpos⟩ := h
  exact ⟨other, hne, hpos⟩

variable (h : s.Phased passes) (hb : s.Bookkept)
include h

theorem Phased.advances_results {r : ν × TaskStatus × TaskStatus}
    {rest : List (ν × TaskStatus × TaskStatus)} (hresults : s.results = r :: rest) :
    s.Advances passes := by
  obtain ⟨n, old, new⟩ := r
  refine ⟨.joinTask, _, rfl, trivial,
    step_iff.2 (.joinTask _ _ _ _ h.spared hresults), ?_⟩
  unfold Sys.joinTask
  split
  · next hjob =>
    simp [(h.idle hjob).1.1] at hresults
  · next job hjob =>
    refine rank_lt_of_rest rfl (fun _ _ => le_refl _) ?_
    have hsame : Sys.jobRank { s with
        results := rest
        seen := Function.update s.seen n new
        job := some { job with progress := job.progress.move old new } } = s.jobRank := by
      cases hw : s.jobWorker with
      | none | some => simp only [jobRank, hjob, hw]
    rw [hsame, hresults]
    show rest.length + s.jobRank < rest.length + 1 + s.jobRank
    omega

include hb

theorem Phased.advances_jobWorker (he : s.Effective)
    (hfin : s.jobStatus.isFinished = false) (hw : s.jobWorker = some w) :
    s.Advances passes := by
  obtain ⟨job, hjob⟩ := isSome_iff_exists.1 (hb.waiting hw)
  have hrank := jobRank_of_worker hjob hw
  -- on the metastore
  have hmeta : w.AtMeta → 1 < JobPhase.rank w.phase → s.Advances passes := by
    intro hat hlt
    refine ⟨.jobMeta true true, _, rfl, trivial, step_iff.2 (.jobMeta _ _ _ hw hat), ?_⟩
    rw [h.jobMeta_true hb hw]
    refine rank_lt_of_rest rfl (fun _ _ => le_refl _) ?_
    have hrank' := jobRank_of_worker (w := { w with phase := .done w.step.target })
      (s := { s with jobStatus := w.step.target }.returnJob w w.step.target) hjob rfl
    rw [hrank, hrank']
    exact Nat.add_lt_add_left (Nat.add_lt_add_left hlt _) _
  cases hphase : w.phase with
  | start =>
    by_cases hstep : w.step = .runSuccess
    swap
    · exact hmeta (Or.inl ⟨hphase, hstep⟩) (by rw [hphase]; decide)
    -- on the schema database
    have hw' : s.jobWorker = some ⟨.runSuccess, .start⟩ := by
      rw [hw, ← hstep, ← hphase]
    refine ⟨.schemaTxn true true true, _, rfl, trivial, step_iff.2 (.schemaTxn _ _ _ hw'), ?_⟩
    obtain ⟨v, k, hschema⟩ := s.exists_withSchema true
    simp only [Sys.schemaTxn, hschema, if_true]
    refine rank_lt_of_rest rfl (fun _ _ => le_refl _) (Nat.add_lt_add_left ?_ _)
    rw [jobRank_of_worker hjob hw']
    exact (jobRank_of_worker (s := { s.withSchema s.jobId v k with
      jobWorker := some ⟨.runSuccess, .migrated⟩ }) hjob rfl).trans_lt (by decide)
  | migrated => exact hmeta (Or.inr hphase) (by rw [hphase]; decide)
  | done status =>
    have hdone : s.jobWorker = some ⟨w.step, .done status⟩ := by rw [hw, ← hphase]
    obtain rfl := he.done w.step status hdone
    have hstored : s.jobStatus = w.step.target := by
      rcases h.done _ _ hdone with heq | ⟨-, hstored⟩
      · cases hcase : w.step <;> rw [hcase] at heq <;> cases heq
      · exact hstored
    refine ⟨.joinJob, _, rfl, trivial, step_iff.2 (.joinJob _ _ h.spared hdone), ?_⟩
    rw [hstored] at hfin
    simp only [Sys.joinJob, hjob, hfin]
    refine rank_lt_of_rest rfl (fun _ _ => le_refl _) ?_
    rw [hrank, hphase]
    refine Nat.add_lt_add_left ?_ _
    show stage w.step.target < stage w.step.fallback - 4 + 1
    cases hcase : w.step with
    | failure | runSuccess => rw [hcase] at hfin; cases hfin
    | waitingRun | dryRunFailure | dryRunSuccess => decide

theorem Phased.advances_worker (he : s.Effective)
    {w : TaskWorker} (hw : s.workers n = some w) : s.Advances passes := by
  obtain ⟨p, hp⟩ := h.phase_of_worker hw
  have hok := hb.worker hw
  have hstarts := h.worker p hp n w hw
  cases hstepped : w.stepped with
  | none =>
    obtain ⟨status, hprep, -⟩ := h.prepared hb hw
    refine ⟨.taskTxn n true (if status = .enqueued then passes n else true) true, _, rfl, ?_,
      step_iff.2 (.taskTxn _ _ _ _ _ hw hstepped), ?_⟩
    · intro _ w' status' hw' hprep'
      obtain rfl := some.inj (hw.symm.trans hw')
      obtain rfl := some.inj (some.inj (hprep.symm.trans hprep'))
      refine ⟨fun heq => if_pos heq, fun heq => if_neg ?_⟩
      rw [heq]
      nofun
    · simp only [Sys.taskTxn, hprep, if_true]
      refine rank_lt_of_taskRank rfl hok.mem ?_ (fun m hmn => ?_) (Nat.le_succ _)
      · simp only [taskRank, Sys.setWorker, Sys.commitTask, update_self, hw, hstepped]
        exact Nat.add_lt_add_left Nat.one_lt_two _
      · simp only [taskRank, Sys.setWorker, Sys.commitTask, update_of_ne hmn]
        exact le_refl _
  | some stepped =>
    cases stepped with
    | none => exact absurd hstepped (he.stepped n w hw)
    | some new =>
      refine ⟨.taskMeta n true, _, rfl, trivial, step_iff.2 (.taskMeta _ _ _ _ hw hstepped), ?_⟩
      have hlt := weight_lt hstarts.takes hok.unfinished (hstarts.returns new hstepped)
      have hself : (s.taskMeta n w (some new) true).taskRank n < s.taskRank n := by
        simp only [taskRank, Sys.taskMeta, if_true, Sys.setWorker, update_self, hw, hstepped,
          getD_some, isSome_some, hok.task, Bool.false_eq_true, if_false]
        omega
      refine rank_lt_of_taskRank rfl hok.mem hself (fun m hmn => ?_) ?_
      · simp only [taskRank, Sys.taskMeta, if_true, Sys.setWorker, update_of_ne hmn]
        exact le_refl _
      · show (s.results ++ [_]).length + s.jobRank ≤ _
        rw [length_append, length_singleton]
        omega

theorem Phased.advances_load (hfin : s.jobStatus.isFinished = false) (hjob : s.job = none) :
    s.Advances passes := by
  refine ⟨.load, _, rfl, trivial, step_iff.2 (.load h.spared hjob), ?_⟩
  unfold Sys.load
  rw [if_neg (by rw [hfin]; exact Bool.false_ne_true)]
  refine rank_lt_of_rest rfl (fun _ _ => le_refl _) (Nat.add_lt_add_left ?_ _)
  have hnone := hb.jobWorker_none hjob
  simp only [jobRank, hjob, hnone]
  cases statusFromProgress s.progress <;> decide

/-- While all results have been joined, a job that is not stepped has a task that its phase
wants. -/
theorem Phased.exists_wanted (hjob : s.job = some job) (hw : s.jobWorker = none)
    (hresults : s.results = []) (henq : enqueues job = true) :
    ∃ n ∈ s.links, wanted job.status (s.tasks n) = true := by
  have hok := h.phase _ (phase_of_job hjob hw)
  have hseen : s.seen = s.tasks := by
    have hleads := hb.leads hjob
    rw [hresults] at hleads
    exact hleads
  -- a task that is not at the status that ends the phase
  have hother : ∀ status, (!job.progressAll status) = true → ∃ n ∈ s.links, s.tasks n ≠ status := by
    intro status hnot
    obtain ⟨other, hne, hpos⟩ := exists_of_not_all (by simpa using hnot)
    obtain ⟨n, hn, heq⟩ := hb.seen_of_progress hjob hpos
    refine ⟨n, hn, ?_⟩
    rw [← hseen, heq]
    exact hne
  obtain ⟨status, progress⟩ := job
  cases status with
  | waitingDryRun =>
    simp only [enqueues, Bool.and_eq_true, beq_iff_eq] at henq
    obtain ⟨n, hn, hne⟩ := hother _ henq.2
    refine ⟨n, hn, ?_⟩
    have hstands := hok.stands n hn
    rcases hstands with heq | heq | heq
    · rw [heq]
      rfl
    · exact absurd heq hne
    · have hzero := (hb.count hjob .dryRunFailure).symm.trans henq.1
      exact absurd (countP_eq_zero.1 hzero n hn) (by rw [hseen, heq]; decide)
  | dryRunFailure =>
    obtain ⟨n, hn, hne⟩ := hother _ henq
    refine ⟨n, hn, ?_⟩
    have hstands := hok.stands n hn
    cases htask : s.tasks n with
    | success => exact absurd htask hstands
    | failure => exact absurd htask hne
    | enqueued | dryRunSuccess | dryRunFailure | run => rfl
  | waitingRun =>
    simp only [enqueues, Bool.and_eq_true] at henq
    obtain ⟨n, hn, hne⟩ := hother _ henq.2
    refine ⟨n, hn, ?_⟩
    rcases hok.stands n hn with heq | heq
    · rw [heq]
      rfl
    · exact absurd heq hne
  | dryRunSuccess | runSuccess | runFailure | waitingTransition => cases henq

theorem Phased.advances_work (ht : s.Tracked)
    (hjob : s.job = some job) (hw : s.jobWorker = none) (hresults : s.results = [])
    (hworkers : ∀ n, s.workers n = none) : s.Advances passes := by
  refine ⟨.work true, _, rfl, trivial, step_iff.2 (.work _ _ h.spared hjob), ?_⟩
  have hspared := (h.work hb hjob true).spared
  have hworks := s.works job true
  generalize s.work job true = s' at hworks hspared ⊢
  cases hworks with
  | enqueues henq =>
    exact ht.rank_enqueueTask_lt hb hjob hworkers (h.exists_wanted hb hjob hw hresults henq)
  | steps step _ hfall =>
    refine rank_lt_of_rest rfl (fun _ _ => le_refl _) (Nat.add_lt_add_left ?_ _)
    rw [jobRank_of_job hjob hw, ← hfall]
    show stage step.fallback - 4 + 3 < stage step.fallback
    cases step <;> decide
  | waits _ hst =>
    have hsome := (h.transit job hjob).1 hst
    simp [hw] at hsome
  | stops => cases hspared

/-- **Progress**: while the job is not finished, some step that meets no error leaves less to do. -/
theorem Phased.advances (ht : s.Tracked) (he : s.Effective)
    (hfin : s.jobStatus.isFinished = false) : s.Advances passes := by
  cases hw : s.jobWorker with
  | some w => exact h.advances_jobWorker hb he hfin hw
  | none =>
    cases hresults : s.results with
    | cons r rest => exact h.advances_results hresults
    | nil =>
      by_cases hworkers : ∀ n, s.workers n = none
      · cases hjob : s.job with
        | none => exact h.advances_load hb hfin hjob
        | some job => exact h.advances_work hb ht hjob hw hresults hworkers
      · rw [not_forall] at hworkers
        obtain ⟨n, hn⟩ := hworkers
        obtain ⟨w, hw⟩ := ne_none_iff_exists'.1 hn
        exact h.advances_worker hb he hw

end SqlAnywhere.Server.Migration.Sys
