import SqlAnywhere.Server.Namespace.Fork
import SqlAnywhere.Server.Namespace.Steps

/-!
# Which namespaces exist

A look-up of the handle of a namespace registers it.  `create` and `fork` do that on purpose.  `with`
checks beforehand that the namespace exists, but a `destroy` may come in between; a fork does the same
with its source, and the look-up for an `ATTACH` does not check at all.

* `Known` — a step that looks a namespace up finds it registered
* `Sys.exact_iff_known` — just then only namespaces that were created exist
-/

namespace SqlAnywhere

namespace Server

namespace Namespaces

variable {δ : Type} (H : Host δ)

/-- A namespace other than the default one exists only if a `create` or a `fork` has registered it and
no `destroy` has removed it since. -/
def Sys.Exact (s : Sys δ) : Prop :=
  ∀ ns, ns ≠ H.defaultName → s.shared.metadata.registered ns = true → s.shared.created ns = true

/-- A call that looks up or stores the configuration of a namespace it does not create finds the
namespace registered at that moment. -/
def Known (s : Sys δ) : Action δ → Prop
  | .step t _ => ∀ task, s.tasks[t]? = some task → ∀ ns, ns ≠ H.defaultName →
      task.lookUp = some ns ∨ task.updates = some ns → s.shared.metadata.registered ns = true
  | _ => True

/-- `Exact`, and a namespace that was created and not removed is registered. -/
structure Recorded (s : Sys δ) : Prop where
  exact : s.Exact H
  registered : ∀ ns, s.shared.created ns = true → s.shared.metadata.registered ns = true

variable {H} {ns : NamespaceName}

namespace Recorded

variable {s : Sys δ} {shared : Shared δ}

variable (h : Recorded H s)
include h

theorem update (ns : NamespaceName) (config : Option DatabaseConfig)
    (hconfigs : shared.metadata.configs = Function.update s.shared.metadata.configs ns config)
    (hcreated : shared.created = Function.update s.shared.created ns config.isSome)
    (tasks : List (Task δ)) : Recorded H ⟨shared, tasks⟩ := by
  have hentry : ∀ ns', shared.metadata.registered ns' = true ∧ shared.created ns' = true ∨
      shared.metadata.registered ns' = false ∧ shared.created ns' = false ∨
      shared.metadata.registered ns' = s.shared.metadata.registered ns' ∧
        shared.created ns' = s.shared.created ns' := by
    intro ns'
    simp only [MetaStore.registered, hconfigs, hcreated]
    by_cases hns : ns' = ns
    · subst hns
      cases config with
      | none | some => simp
    · simp [Function.update_of_ne hns]
  constructor
  · intro ns' hdefault hns'
    rcases hentry ns' with ⟨-, hc⟩ | ⟨hr, -⟩ | ⟨hr, hc⟩
    · exact hc
    · rw [hr] at hns'
      cases hns'
    · exact hc.trans (h.exact ns' hdefault (hr.symm.trans hns'))
  · intro ns' hns'
    rcases hentry ns' with ⟨hr, -⟩ | ⟨-, hc⟩ | ⟨hr, hc⟩
    · exact hr
    · rw [hc] at hns'
      cases hns'
    · exact hr.trans (h.registered ns' (hc.symm.trans hns'))

theorem of_same (hconfigs : shared.metadata.configs = s.shared.metadata.configs)
    (hcreated : shared.created = s.shared.created) (tasks : List (Task δ)) :
    Recorded H ⟨shared, tasks⟩ := by
  constructor
  · intro ns hdefault hns
    simp only [MetaStore.registered, hconfigs] at hns
    simp only [hcreated]
    exact h.exact ns hdefault hns
  · intro ns hns
    simp only [hcreated] at hns
    simp only [MetaStore.registered, hconfigs]
    exact h.registered ns hns

theorem stored {config : DatabaseConfig}
    (hns : ns ≠ H.defaultName → s.shared.metadata.registered ns = true)
    (hconfigs : shared.metadata.configs = Function.update s.shared.metadata.configs ns (some config))
    (hcreated : shared.created = s.shared.created) (tasks : List (Task δ)) :
    Recorded H ⟨shared, tasks⟩ := by
  constructor
  · intro ns' hdefault hns'
    rw [hcreated]
    apply h.exact ns' hdefault
    by_cases heq : ns' = ns
    · subst heq
      exact hns hdefault
    · simpa only [MetaStore.registered, hconfigs, Function.update_of_ne heq] using hns'
  · intro ns' hns'
    simp only [MetaStore.registered, hconfigs]
    by_cases heq : ns' = ns
    · simp [heq]
    · rw [Function.update_of_ne heq]
      exact h.registered ns' (by rw [← hcreated]; exact hns')

theorem task_step {fails : Fault → Bool} {t : ℕ} {task task' : Task δ}
    (hknown : ∀ ns, ns ≠ H.defaultName → task.lookUp = some ns ∨ task.updates = some ns →
      s.shared.metadata.registered ns = true)
    (hstep : task.step H fails s.shared t = some (shared, task')) (tasks : List (Task δ)) :
    Recorded H ⟨shared, tasks⟩ := by
  cases Task.step_registers hstep with
  | same hconfigs hcreated => exact h.of_same hconfigs hcreated tasks
  | found ns hns hmeta hcreated =>
    have hconfigs := congrArg MetaStore.configs hmeta
    exact h.stored (fun hdefault => hknown ns hdefault (.inl hns)) hconfigs hcreated tasks
  | made ns hns config hconfigs hcreated => exact h.update ns (some config) hconfigs hcreated tasks
  | updated ns hns config hconfigs hcreated =>
    exact h.stored (fun hdefault => hknown ns hdefault (.inr hns)) hconfigs hcreated tasks
  | removed ns hns hconfigs hcreated => exact h.update ns none hconfigs hcreated tasks

end Recorded

/-- A call that looks a namespace up or stores its configuration leaves it registered. -/
theorem Task.step_of_lookUp (H : Host δ) (s : Shared δ) (fails : Fault → Bool) (t : ℕ) {task : Task δ}
    (h : task.lookUp = some ns ∨ task.updates = some ns) :
    ∃ s' task', task.step H fails s t = some (s', task') ∧ s'.metadata.registered ns = true ∧
      s'.created = s.created := by
  have hhandle : (s.handle ns).metadata.registered ns = true := by
    rw [Shared.handle, Shared.setMeta, MetaStore.registered_handle]
    simp
  cases task with
  | withHandle ns' | attach ns' | resetHandle ns' =>
    obtain rfl : ns' = ns := by simpa [lookUp, updates] using h
    exact ⟨_, _, rfl, hhandle, rfl⟩
  | forkHandle source target config timestamp toEntry =>
    obtain rfl : source = ns := by simpa [lookUp, updates] using h
    exact ⟨_, _, rfl, hhandle, rfl⟩
  | update ns' config =>
    obtain rfl : ns' = ns := by simpa [lookUp, updates] using h
    have hstored := s.metadata.registered_process ns' config (!fails .store) ns'
    simp only [step]
    generalize s.metadata.process ns' (some config) true (!fails .store) = made at hstored ⊢
    obtain ⟨m, outcome⟩ := made
    cases outcome with
    | error | ok => exact ⟨_, _, rfl, hstored.trans (by simp), rfl⟩
  | _ => simp [lookUp, updates] at h

/-! ### Runs -/

namespace Sys

theorem Recorded.step {s s' : Sys δ} {a : Action δ} (h : Recorded H s) (hknown : Known H s a)
    (hstep : s.step H a = some s') : Recorded H s' := by
  by_cases ha : ∃ t fails, a = .step t fails
  · obtain ⟨t, fails, rfl⟩ := ha
    obtain ⟨task, shared, task', htask, htaskStep, rfl⟩ := step_task hstep
    exact h.task_step (hknown task htask) htaskStep _
  · obtain ⟨hconfigs, hcreated⟩ := step_env hstep fun t fails heq => ha ⟨t, fails, heq⟩
    exact h.of_same hconfigs hcreated s'.tasks

/-- A look-up that does not find the namespace brings it into existence. -/
theorem known_of_exact {s : Sys δ} {a : Action δ} (h : Recorded H s)
    (hexact : ∀ s', s.step H a = some s' → s'.Exact H) : Known H s a := by
  cases a with
  | step t fails =>
    intro task htask ns hdefault hns
    obtain ⟨shared, task', hstep, hregistered, hcreated⟩ :=
      Task.step_of_lookUp H s.shared fails t hns
    have hs' : s.step H (.step t fails) = some ⟨shared, s.tasks.set t task'⟩ := by
      simp only [step, htask, Option.bind_some, hstep, Option.map_some]
    have hns' := hexact _ hs' ns hdefault hregistered
    exact h.registered ns (by rw [← hcreated]; exact hns')
  | _ => trivial

/-- **Only what was created exists**: at each step of a run the namespaces that exist, other than the
default one, are some that were created or forked and not destroyed since, if and only if each
look-up for another purpose finds its namespace registered. -/
theorem exact_iff_known (m : MetaStore) (files : NamespaceName → Option δ) (now : ℕ)
    (as : List (Action δ)) :
    Run.Along (Sys.step H) (fun s a => ∀ s', s.step H a = some s' → s'.Exact H)
        (started m files now) as ↔
      Run.Along (Sys.step H) (Known H) (started m files now) as := by
  refine Run.along_iff (I := Recorded H) ?_ ?_ ⟨fun ns _ h => h, fun ns h => h⟩
  · intro s a h
    exact ⟨known_of_exact h, fun hknown s' hstep => (Recorded.step h hknown hstep).exact⟩
  · intro s a s' h hexact hstep
    exact Recorded.step h (known_of_exact h hexact) hstep

/-- **A destroyed namespace comes back**: a `with` has checked that it exists, a `destroy` returns, and
then the `with` looks its handle up.  And an `ATTACH` of a name that was never used makes it exist. -/
theorem back_after_destroy :
    (∃ s, Run.exec (Sys.step Store.plainHost) (started Store.twoNamespaces Store.twoFiles 0)
        ([.start (.withCheck "archive"), .step 0 (fun _ => false),
            .start (.destroyStart "archive" none)] ++
          List.replicate 4 (.step 1 fun _ => false) ++ [.step 0 fun _ => false]) = some s ∧
      s.tasks[1]? = some (.destroyed "archive" .ok none) ∧
      s.shared.metadata.registered "archive" = true ∧ s.shared.created "archive" = false ∧
      ¬s.Exact Store.plainHost) ∧
    ∃ s, Run.exec (Sys.step Store.plainHost) (started Store.twoNamespaces Store.twoFiles 0)
        [.start (.attach "unknown"), .step 0 fun _ => false] = some s ∧
      s.shared.metadata.registered "unknown" = true ∧ s.shared.created "unknown" = false ∧
      ¬s.Exact Store.plainHost := by
  refine ⟨⟨_, rfl, rfl, by decide, by decide, fun hexact => ?_⟩,
    _, rfl, by decide, by decide, fun hexact => ?_⟩
  · have harchive := hexact "archive" (by decide) (by decide)
    revert harchive
    decide
  · have hunknown := hexact "unknown" (by decide) (by decide)
    revert hunknown
    decide

end Sys

end Namespaces

end Server

end SqlAnywhere
