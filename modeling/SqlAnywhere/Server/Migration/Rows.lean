import Mathlib.Data.List.Nodup
import SqlAnywhere.Lib.Update
import SqlAnywhere.Server.Migration

/-!
# What one namespace records of a migration, and what the scheduler counts

* `RowOk` — what the row of a job in a namespace's own table tells
* `Tells` — what a status of the task, wherever it is kept, tells about its namespace
* `progress_update` — the progress of the current job counts statuses
* `Leads` — the results on their way to the scheduler
-/

namespace SqlAnywhere.Server.Migration

open Function List Option

/-! ### The row of a namespace -/

/-- A row of the job, the dry runs made on the namespace and how often the migration was committed
to it.  No transaction leaves a row at `Enqueued` or `Run`. -/
inductive RowOk : Option TaskStatus → List Bool → ℕ → Prop
  | absent : RowOk none [] 0
  | passed : RowOk (some .dryRunSuccess) [true] 0
  | failed : RowOk (some .dryRunFailure) [false] 0
  | applied : RowOk (some .success) [true] 1
  | stopped {runs : List Bool} (h : runs = [] ∨ ∃ b, runs = [b]) : RowOk (some .failure) runs 0

/-- What a status of the task says about its namespace, wherever it is kept. -/
def Tells (row : Option TaskStatus) (runs : List Bool) : TaskStatus → Prop
  | .dryRunSuccess => runs = [true]
  | .dryRunFailure => runs = [false]
  | .success => row = some .success
  | .run => False
  | .enqueued | .failure => True

theorem RowOk.tells {status : TaskStatus} {runs : List Bool} {k : ℕ}
    (h : RowOk (some status) runs k) : Tells (some status) runs status := by
  cases h with
  | passed | failed | applied => exact rfl
  | stopped h => trivial

/-- The four ways a transaction of a task comes to `step_task`. -/
theorem prepareTask_cases {jobStatus : JobStatus} {old status : TaskStatus}
    {row : Option TaskStatus} (h : prepareTask jobStatus old row = some (some status)) :
    (jobStatus = .dryRunFailure ∧ status = .failure) ∨
      (row = none ∧ status = .enqueued) ∨
      (jobStatus = .waitingRun ∧ row = some .dryRunSuccess ∧ status = .run) ∨
      row = some status := by
  unfold prepareTask at h
  split at h
  · next hfail => exact Or.inl ⟨hfail, (some.inj (some.inj h)).symm⟩
  split at h
  · cases row with
    | none => exact Or.inr (Or.inl ⟨rfl, (some.inj (some.inj h)).symm⟩)
    | some r => exact Or.inr (Or.inr (Or.inr (some.inj h)))
  · split at h
    · next hrun =>
      split at h
      · next hrow =>
        have hstatus := (some.inj (some.inj h)).symm
        exact Or.inr (Or.inr (Or.inl ⟨hrun.2, hrow, hstatus⟩))
      · exact Or.inr (Or.inr (Or.inr (some.inj h)))
    · cases h

/-- How the row, the dry runs and the number of times applied differ after a transaction. -/
structure Commits (jobStatus : JobStatus) (row : Option TaskStatus) (runs : List Bool) (k : ℕ)
    (status : TaskStatus) (runs' : List Bool) (k' : ℕ) : Prop where
  ok : RowOk (some status) runs' k'
  /-- A dry run is only made where there was none. -/
  runs : runs = [] ∨ runs' = runs
  /-- What was applied stays on record. -/
  kept : row = some .success → status = .success
  /-- The migration is only applied for a job that waits for it. -/
  asked : k' ≠ 0 → k ≠ 0 ∨ jobStatus = .waitingRun

theorem RowOk.commits {jobStatus : JobStatus} {old status : TaskStatus} {row : Option TaskStatus}
    {runs : List Bool} {k : ℕ} (hok : RowOk row runs k)
    (h : prepareTask jobStatus old row = some (some status))
    (habort : jobStatus = .dryRunFailure → row ≠ some .success) (migrates : Bool) :
    Commits jobStatus row runs k (stepTask status migrates)
      (runs ++ if status = .enqueued then [migrates] else [])
      (k + if status = .run ∧ migrates = true then 1 else 0) := by
  rcases prepareTask_cases h with ⟨hjob, rfl⟩ | ⟨rfl, rfl⟩ | ⟨hjob, rfl, rfl⟩ | rfl
  · -- aborted: whatever the row was, it was not at `Success`
    cases hok with
    | absent => exact ⟨.stopped (Or.inl rfl), Or.inl rfl, nofun, nofun⟩
    | passed => exact ⟨.stopped (Or.inr ⟨true, rfl⟩), Or.inr rfl, nofun, nofun⟩
    | failed => exact ⟨.stopped (Or.inr ⟨false, rfl⟩), Or.inr rfl, nofun, nofun⟩
    | applied => exact absurd rfl (habort hjob)
    | stopped h => exact ⟨.stopped (by simpa using h), Or.inr (by simp), nofun, nofun⟩
  · -- the dry run
    cases hok
    cases migrates
    · exact ⟨.failed, Or.inl rfl, nofun, nofun⟩
    · exact ⟨.passed, Or.inl rfl, nofun, nofun⟩
  · -- the migration
    cases hok
    cases migrates
    · exact ⟨.stopped (Or.inr ⟨true, rfl⟩), Or.inr rfl, nofun, nofun⟩
    · exact ⟨.applied, Or.inr rfl, nofun, fun _ => Or.inr hjob⟩
  · -- a row that is only reported
    cases hok with
    | passed => exact ⟨.passed, Or.inr rfl, nofun, nofun⟩
    | failed => exact ⟨.failed, Or.inr rfl, nofun, nofun⟩
    | applied => exact ⟨.applied, Or.inr rfl, fun _ => rfl, fun h => Or.inl h⟩
    | stopped h => exact ⟨.stopped (by simpa using h), Or.inr (by simp), nofun, nofun⟩

/-! ### What the progress counts -/

section Count

variable {ν : Type*} [DecidableEq ν] {n : ν} {links : List ν}
  {results : List (ν × TaskStatus × TaskStatus)} {tasks seen : ν → TaskStatus}

theorem countP_update_of_notMem (h : n ∉ links) (f : ν → TaskStatus) (new status : TaskStatus) :
    links.countP (fun m => update f n new m == status) =
      links.countP (fun m => f m == status) := by
  apply countP_congr
  intro m hm
  have hne : m ≠ n := by
    rintro rfl
    exact h hm
  rw [update_of_ne hne]

theorem countP_update (hnodup : links.Nodup) (h : n ∈ links)
    (f : ν → TaskStatus) (new status : TaskStatus) :
    links.countP (fun m => update f n new m == status) + (if f n = status then 1 else 0) =
      links.countP (fun m => f m == status) + (if new = status then 1 else 0) := by
  induction links with
  | nil => cases h
  | cons a links ih =>
    obtain ⟨ha, hnodup⟩ := nodup_cons.1 hnodup
    rw [countP_cons, countP_cons]
    by_cases han : a = n
    · subst han
      rw [countP_update_of_notMem ha, update_self]
      simp only [beq_iff_eq]
      omega
    · rw [update_of_ne han]
      have htail := ih hnodup ((mem_cons.1 h).resolve_left (Ne.symm han))
      omega

theorem progress_update (hnodup : links.Nodup) (h : n ∈ links)
    {seen : ν → TaskStatus} {progress : Progress}
    (hcount : ∀ status, progress status = links.countP (fun m => seen m == status))
    (new status : TaskStatus) :
    progress.move (seen n) new status =
      links.countP (fun m => update seen n new m == status) := by
  have hpos : 0 < progress (seen n) := by
    rw [hcount]
    exact countP_pos_iff.2 ⟨n, h, by simp⟩
  have hmove := countP_update hnodup h seen new status
  rw [← hcount] at hmove
  unfold Progress.move
  by_cases hnew : status = new
  · subst hnew
    rw [update_self]
    by_cases hold : status = seen n
    · subst hold
      rw [update_self]
      rw [if_pos rfl] at hmove
      omega
    · rw [update_of_ne hold]
      rw [if_neg (Ne.symm hold), if_pos rfl] at hmove
      omega
  · rw [update_of_ne hnew]
    by_cases hold : status = seen n
    · subst hold
      rw [update_self]
      rw [if_pos rfl, if_neg (Ne.symm hnew)] at hmove
      omega
    · rw [update_of_ne hold]
      rw [if_neg (Ne.symm hold), if_neg (Ne.symm hnew)] at hmove
      omega

/-- The results that wait to be joined lead, in their order, from the statuses the scheduler has
counted to those of the metastore, and each is of a task that was not finished. -/
def Leads (tasks : ν → TaskStatus) :
    (ν → TaskStatus) → List (ν × TaskStatus × TaskStatus) → Prop
  | seen, [] => seen = tasks
  | seen, (n, old, new) :: rest =>
    seen n = old ∧ old.isFinished = false ∧ Leads tasks (Function.update seen n new) rest

theorem Leads.snoc
    (h : Leads tasks seen results) (hold : (tasks n).isFinished = false) (new : TaskStatus) :
    Leads (update tasks n new) seen (results ++ [(n, tasks n, new)]) := by
  induction results generalizing seen with
  | nil =>
    obtain rfl : seen = tasks := h
    exact ⟨rfl, hold, rfl⟩
  | cons r results ih => exact ⟨h.1, h.2.1, ih h.2.2⟩

theorem Leads.success
    (h : Leads tasks seen results)
    (hn : seen n = .success) : tasks n = .success := by
  induction results generalizing seen with
  | nil =>
    obtain rfl : seen = tasks := h
    exact hn
  | cons r results ih =>
    obtain ⟨m, old, new⟩ := r
    obtain ⟨hm, hold, hrest⟩ := h
    refine ih hrest ?_
    -- a task that has succeeded has no result to come
    have hne : n ≠ m := by
      rintro rfl
      rw [← hm, hn] at hold
      cases hold
    rw [update_of_ne hne, hn]

end Count

end SqlAnywhere.Server.Migration
