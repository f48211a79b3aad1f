import SqlAnywhere.Server.Namespace.Steps

/-!
# Orderly creation and removal

A `destroy` first removes the registration, then the instance and last the files, while a `create` of
the same name may already be underway.  The sweep lists the namespaces that have expired once, and
destroys them one after the other.

* `Orderly` — how calls keep out of each other's way
* `Right` — what a step must not do
* `Kept` — what holds in between, and one lemma for each kind of step
-/

namespace SqlAnywhere.Server.Namespaces

open Function List

variable {δ : Type} {H : Host δ} {fails : Fault → Bool} {ns : NamespaceName} {task : Task δ}

namespace Task

/-- The namespace of a step of `create`, `destroy` or a change of a configuration. -/
def concerned : Task δ → Option NamespaceName
  | .createCheck ns _ _ | .createHandle ns _ _ _ | .createStore ns _ _ _ | .load ns _ (.create _ _)
  | .setup ns _ (.create _ _) | .insert ns _ (.create _ _) | .destroyStart ns _ | .destroyRemove ns _
  | .destroyEntry ns _ | .destroyTake ns _ _ | .destroyInstance ns _ _ _ | .destroyCleanup ns _
  | .destroyed ns _ _ | .update ns _ => some ns
  | _ => none

/-- The namespace that a `create` is about to make, which it has found free to be made. -/
def making : Task δ → Option NamespaceName
  | .createHandle ns _ _ _ | .createStore ns _ _ _ | .load ns _ (.create _ _)
  | .setup ns _ (.create _ _) | .insert ns _ (.create _ _) => some ns
  | _ => none

/-- The namespace that a `destroy` has removed from the metastore and not yet cleaned up. -/
def removing : Task δ → Option NamespaceName
  | .destroyEntry ns _ | .destroyTake ns _ _ | .destroyInstance ns _ _ _ | .destroyCleanup ns _ =>
    some ns
  | _ => none

/-- The namespaces that a sweep has listed and not yet removed. -/
def pending : Task δ → List NamespaceName
  | .destroyStart ns (some rest) | .destroyRemove ns (some rest) => ns :: rest
  | .destroyEntry _ (some rest) | .destroyTake _ _ (some rest) | .destroyInstance _ _ _ (some rest)
  | .destroyCleanup _ (some rest) | .destroyed _ _ (some rest) => rest
  | _ => []

/-- What is asked of the next step of a call. -/
def Orderly (s : Sys δ) (fails : Fault → Bool) : Task δ → Prop
  | .createCheck ns _ config => config.sharedSchemaName = none ∧
      ∀ task ∈ s.tasks, task.making ≠ some ns ∧ task.removing ≠ some ns
  | .createHandle ns _ _ _ | .createStore ns _ _ _ | .update ns _ =>
    ∀ task ∈ s.tasks, ns ∉ task.pending
  | .destroyRemove ns _ => ∀ task ∈ s.tasks, task.making ≠ some ns
  | .destroyCleanup _ _ => fails .cleanup = false
  | _ => True

end Task

/-- A step of `create` without a shared schema (with one it forks the schema, which registers the
name first and takes it back when it fails, so that a sweep can meet it half made), of `destroy`, a
sweep or a change of a configuration: a namespace is created when no other call is about to create
it or to clean it up, and removed when no call is about to create it; its configuration is stored
when no sweep has it still to remove; and no clean-up fails. -/
def Orderly (s : Sys δ) : Action δ → Prop
  | .step t fails => ∀ task, s.tasks[t]? = some task →
      task.concerned.isSome = true ∧ task.Orderly s fails
  | _ => True

/-- What a step must not do. -/
structure Right (H : Host δ) (s : Sys δ) (a : Action δ) (s' : Sys δ) : Prop where
  /-- A sweep removes a namespace only if its expiry has passed. -/
  expired : ∀ t fails ns rest, a = .step t fails →
    s.tasks[t]? = some (.destroyRemove ns (some rest)) →
    s'.tasks[t]? = some (.destroyEntry ns (some rest)) →
    s.shared.metadata.isExpired s.shared.now ns = true
  /-- A namespace whose destruction fails is registered as it was. -/
  failed : ∀ t fails ns e rest, a = .step t fails →
    s'.tasks[t]? = some (.destroyed ns (.failed e) rest) → e ≠ .namespaceStoreShutdown →
    e ≠ .namespaceDoesntExist ns →
    s'.shared.metadata.configs ns = s.shared.metadata.configs ns ∧
      s'.shared.metadata.registered ns = true
  /-- A namespace that was not registered before starts with what its creation asked for. -/
  created : ∀ t fails ns option, a = .step t fails →
    s'.tasks[t]? = some (.created ns option true) → s'.shared.files ns = H.opened ns option none

/-! ### What holds in between -/

/-- What the next step of a call relies on. -/
def Task.Fits (H : Host δ) (s : Shared δ) : Task δ → Prop
  | .createHandle ns _ _ fresh =>
    (fresh = true → s.files ns = none ∧ s.cache ns = none) ∧
      (fresh = false → s.metadata.registered ns = true)
  | .createStore ns _ _ fresh =>
    s.metadata.registered ns = true ∧ (fresh = true → s.files ns = none ∧ s.cache ns = none)
  | .load ns option (.create option' fresh) | .setup ns option (.create option' fresh) =>
    option = option' ∧ s.metadata.registered ns = true ∧
      (fresh = true → s.files ns = none ∧ s.cache ns = none)
  | .insert ns _ (.create option fresh) =>
    s.metadata.registered ns = true ∧ (fresh = true → s.files ns = H.opened ns option none)
  | .destroyTake ns _ _ | .destroyInstance ns _ _ _ | .destroyCleanup ns _ => s.cache ns = none
  | _ => True

/-- What holds of the store and its calls in an orderly run. -/
structure Kept (H : Host δ) (s : Sys δ) : Prop where
  /-- Nothing is left of a namespace that is gone. -/
  free : ∀ ns, s.shared.metadata.registered ns = false →
    (∀ (t : ℕ) (task : Task δ), s.tasks[t]? = some task →
      task.making ≠ some ns ∧ task.removing ≠ some ns) →
    s.shared.files ns = none ∧ s.shared.cache ns = none
  fits : ∀ (t : ℕ) (task : Task δ), s.tasks[t]? = some task → task.Fits H s.shared
  pending : ∀ (t : ℕ) (task : Task δ), s.tasks[t]? = some task → ∀ ns ∈ task.pending,
    s.shared.metadata.registered ns = true → s.shared.metadata.isExpired s.shared.now ns = true
  /-- A `create` has its namespace to itself. -/
  alone : ∀ (t t' : ℕ) (task task' : Task δ) (ns : NamespaceName), s.tasks[t]? = some task →
    s.tasks[t']? = some task' → task.making = some ns →
    task'.making = some ns ∨ task'.removing = some ns → t = t'

/-- What a step may change is of one namespace. -/
structure Local (ns : NamespaceName) (s s' : Shared δ) : Prop where
  configs : ∀ ns', ns' ≠ ns → s'.metadata.configs ns' = s.metadata.configs ns'
  files : ∀ ns', ns' ≠ ns → s'.files ns' = s.files ns'
  cache : ∀ ns', ns' ≠ ns → s'.cache ns' = s.cache ns'
  now : s'.now = s.now

theorem Local.registered {s s' : Shared δ} (h : Local ns s s') {ns' : NamespaceName}
    (hne : ns' ≠ ns) : s'.metadata.registered ns' = s.metadata.registered ns' := by
  rw [MetaStore.registered, h.configs ns' hne, MetaStore.registered]

/-- A call has to do with no other namespace. -/
def Task.Only (ns : NamespaceName) (task : Task δ) : Prop :=
  ∀ ns', ns' ≠ ns → task.making ≠ some ns' ∧ task.removing ≠ some ns'

theorem Task.concerned_of_making (h : task.making = some ns) : task.concerned = some ns := by
  cases task with
  | load _ _ after | setup _ _ after | insert _ _ after => cases after <;> exact h
  | _ => first | exact h | cases h

theorem Task.concerned_of_removing (h : task.removing = some ns) : task.concerned = some ns := by
  cases task <;> first | exact h | cases h

theorem Task.only_of_concerned (h : task.concerned = some ns) : task.Only ns := by
  intro ns' hne
  refine ⟨fun hmaking => hne ?_, fun hremoving => hne ?_⟩
  · exact Option.some.inj ((concerned_of_making hmaking).symm.trans h)
  · exact Option.some.inj ((concerned_of_removing hremoving).symm.trans h)

/-- What a call relies on is of the namespace that it makes or removes. -/
theorem Task.Fits.mono {s s' : Shared δ} (hfits : task.Fits H s)
    (hregistered : ∀ ns, task.making = some ns → s.metadata.registered ns = true →
      s'.metadata.registered ns = true)
    (hfiles : ∀ ns, task.making = some ns → s'.files ns = s.files ns)
    (hcache : ∀ ns, task.making = some ns ∨ task.removing = some ns → s.cache ns = none →
      s'.cache ns = none) : task.Fits H s' := by
  have hfresh : ∀ {ns : NamespaceName} {fresh : Bool}, task.making = some ns →
      (fresh = true → s.files ns = none ∧ s.cache ns = none) →
      fresh = true → s'.files ns = none ∧ s'.cache ns = none := by
    intro ns fresh hmaking hold hf
    rw [hfiles ns hmaking]
    exact ⟨(hold hf).1, hcache ns (.inl hmaking) (hold hf).2⟩
  cases task with
  | createHandle ns =>
    exact ⟨hfresh rfl hfits.1, fun hf => hregistered ns rfl (hfits.2 hf)⟩
  | createStore ns => exact ⟨hregistered ns rfl hfits.1, hfresh rfl hfits.2⟩
  | load ns _ after | setup ns _ after =>
    cases after with
    | create => exact ⟨hfits.1, hregistered ns rfl hfits.2.1, hfresh rfl hfits.2.2⟩
    | with_ | fork => trivial
  | insert ns _ after =>
    cases after with
    | create => exact ⟨hregistered ns rfl hfits.1, fun hf => (hfiles ns rfl).trans (hfits.2 hf)⟩
    | with_ | fork => trivial
  | destroyTake ns | destroyInstance ns | destroyCleanup ns => exact hcache ns (.inr rfl) hfits
  | _ => trivial

/-! ### One step -/

section step

variable {s : Sys δ} {t : ℕ} {task' : Task δ} {shared : Shared δ}
  {rest : Option (List NamespaceName)}

/-- No other call makes the namespace, and none removes it. -/
def Sys.Others (s : Sys δ) (t : ℕ) (ok : Task δ → Prop) : Prop :=
  ∀ (t' : ℕ) (task'' : Task δ), t' ≠ t → s.tasks[t']? = some task'' → ok task''

/-- No other call makes or removes the namespace. -/
def Sys.Apart (s : Sys δ) (t : ℕ) (ns : NamespaceName) : Prop :=
  s.Others t fun task'' => task''.making ≠ some ns ∧ task''.removing ≠ some ns

theorem Kept.others_of_making (h : Kept H s) (htask : s.tasks[t]? = some task)
    (hmaking : task.making = some ns) : s.Apart t ns := by
  intro t' task'' hne htask''
  refine ⟨fun hm => hne ?_, fun hr => hne ?_⟩
  · exact (h.alone t t' task task'' ns htask htask'' hmaking (.inl hm)).symm
  · exact (h.alone t t' task task'' ns htask htask'' hmaking (.inr hr)).symm

theorem Kept.others_of_removing (h : Kept H s) (htask : s.tasks[t]? = some task)
    (hremoving : task.removing = some ns) : s.Others t fun task'' => task''.making ≠ some ns := by
  intro t' task'' hne htask'' hm
  exact hne (h.alone t' t task'' task ns htask'' htask hm (.inr hremoving))

/-- A step of a call: what is to be shown is about its namespace. -/
theorem Kept.set (h : Kept H s) (htask : s.tasks[t]? = some task) (hlocal : Local ns s.shared shared)
    (honly : task.Only ns) (honly' : task'.Only ns) (hfits : task'.Fits H shared)
    (hmakes : (s.Others t fun task'' => task''.making ≠ some ns) ∨
      (s.shared.metadata.registered ns = true → shared.metadata.registered ns = true) ∧
        shared.files ns = s.shared.files ns)
    (hcache : s.Apart t ns ∨ (s.shared.cache ns = none → shared.cache ns = none))
    (hfree : shared.metadata.registered ns = false → task'.making ≠ some ns →
      task'.removing ≠ some ns →
      s.Apart t ns → shared.files ns = none ∧ shared.cache ns = none)
    (hpending : ∀ m ∈ task'.pending,
      m ∈ task.pending ∨ shared.metadata.isExpired shared.now m = true)
    (hlisted : shared.metadata.configs = s.shared.metadata.configs ∨
      shared.metadata.registered ns = false ∨ ∀ task ∈ s.tasks, ns ∉ task.pending)
    (halone : task'.making = some ns → task.making = some ns ∨ s.Apart t ns)
    (halone' : task'.removing = some ns → task.removing = some ns ∨
      s.Others t fun task'' => task''.making ≠ some ns) :
    Kept H ⟨shared, s.tasks.set t task'⟩ := by
  have hlt := (List.getElem?_eq_some_iff.1 htask).1
  have hself : (s.tasks.set t task')[t]? = some task' := by simp [hlt]
  have hother : ∀ {t' : ℕ} {task'' : Task δ}, t' ≠ t → s.tasks[t']? = some task'' →
      (s.tasks.set t task')[t']? = some task'' := by
    intro t' task'' hne htask''
    rw [List.getElem?_set_ne (fun heq => hne heq.symm)]
    exact htask''
  constructor
  · intro ns' hregistered hnone
    by_cases heq : ns' = ns
    · subst heq
      obtain ⟨hmaking, hremoving⟩ := hnone t task' hself
      exact hfree hregistered hmaking hremoving fun t' task'' hne htask'' =>
        hnone t' task'' (hother hne htask'')
    · rw [hlocal.files ns' heq, hlocal.cache ns' heq]
      refine h.free ns' ?_ fun t' task'' htask'' => ?_
      · exact (hlocal.registered heq).symm.trans hregistered
      · by_cases ht : t' = t
        · subst ht
          cases htask.symm.trans htask''
          exact honly ns' heq
        · exact hnone t' task'' (hother ht htask'')
  · intro t' task'' htask''
    rcases getElem?_set_cases htask'' with ⟨rfl, rfl⟩ | ⟨hne, htask''⟩
    · exact hfits
    refine (h.fits t' task'' htask'').mono (fun ns' hm hr => ?_) (fun ns' hm => ?_)
      (fun ns' hdoes hc => ?_)
    all_goals by_cases heq : ns' = ns
    · subst heq
      exact (hmakes.resolve_left fun hnone => hnone t' task'' hne htask'' hm).1 hr
    · exact (hlocal.registered heq).trans hr
    · subst heq
      exact (hmakes.resolve_left fun hnone => hnone t' task'' hne htask'' hm).2
    · exact hlocal.files ns' heq
    · subst heq
      refine hcache.resolve_left (fun hnone => ?_) hc
      exact not_or.2 (hnone t' task'' hne htask'') hdoes
    · exact (hlocal.cache ns' heq).trans hc
  · -- a namespace that was listed before the step
    have hold : ∀ {t' : ℕ} {task'' : Task δ} {m : NamespaceName}, s.tasks[t']? = some task'' →
        m ∈ task''.pending → shared.metadata.registered m = true →
        shared.metadata.isExpired shared.now m = true := by
      intro t' task'' m htask'' hm hregistered
      have hexpired := h.pending t' task'' htask'' m hm
      have hconfigs : shared.metadata.configs m = s.shared.metadata.configs m := by
        by_cases heq : m = ns
        · subst heq
          rcases hlisted with hsame | hgone | hnone
          · rw [hsame]
          · cases hgone.symm.trans hregistered
          · exact absurd hm (hnone task'' (mem_of_getElem? htask''))
        · exact hlocal.configs m heq
      simp only [MetaStore.registered, MetaStore.isExpired, hconfigs, hlocal.now]
        at hexpired hregistered ⊢
      exact hexpired hregistered
    intro t' task'' htask'' m hm hregistered
    rcases getElem?_set_cases htask'' with ⟨rfl, rfl⟩ | ⟨hne, htask''⟩
    · rcases hpending m hm with hm | hexpired
      · exact hold htask hm hregistered
      · exact hexpired
    · exact hold htask'' hm hregistered
  · have halone := fun hm => (halone hm).elim (h.others_of_making htask) id
    have halone' := fun hr => (halone' hr).elim (h.others_of_removing htask) id
    intro t₁ t₂ task₁ task₂ ns' h₁ h₂ hmaking hboth
    by_cases heq : ns' = ns
    · subst heq
      rcases getElem?_set_cases h₁ with ⟨rfl, rfl⟩ | ⟨hne₁, hold₁⟩
      · rcases getElem?_set_cases h₂ with ⟨rfl, -⟩ | ⟨hne₂, hold₂⟩
        · rfl
        · obtain ⟨hm, hr⟩ := halone hmaking t₂ task₂ hne₂ hold₂
          exact absurd hboth (not_or.2 ⟨hm, hr⟩)
      · rcases getElem?_set_cases h₂ with ⟨rfl, rfl⟩ | ⟨hne₂, hold₂⟩
        · rcases hboth with hm | hr
          · exact absurd hmaking (halone hm t₁ task₁ hne₁ hold₁).1
          · exact absurd hmaking (halone' hr t₁ task₁ hne₁ hold₁)
        · exact h.alone t₁ t₂ task₁ task₂ ns' hold₁ hold₂ hmaking hboth
    · have hold : ∀ {t' : ℕ} {task'' : Task δ}, (s.tasks.set t task')[t']? = some task'' →
          task''.making = some ns' ∨ task''.removing = some ns' → s.tasks[t']? = some task'' := by
        intro t' task'' htask'' hdoes
        rcases getElem?_set_cases htask'' with ⟨rfl, rfl⟩ | ⟨-, htask''⟩
        · exact absurd hdoes (not_or.2 (honly' ns' heq))
        · exact htask''
      exact h.alone t₁ t₂ task₁ task₂ ns' (hold h₁ (.inl hmaking)) (hold h₂ hboth) hmaking hboth

/-- What the calls rely on is unchanged. -/
structure Unchanged (s s' : Shared δ) : Prop where
  configs : s'.metadata.configs = s.metadata.configs
  files : s'.files = s.files
  cache : s'.cache = s.cache
  now : s'.now = s.now

theorem Unchanged.refl (s : Shared δ) : Unchanged s s := ⟨rfl, rfl, rfl, rfl⟩

theorem Unchanged.registered {s s' : Shared δ} (h : Unchanged s s') :
    s'.metadata.registered = s.metadata.registered := by
  funext ns
  rw [MetaStore.registered, h.configs, MetaStore.registered]

theorem Unchanged.local {s s' : Shared δ} (h : Unchanged s s') (ns : NamespaceName) :
    Local ns s s' :=
  ⟨fun _ _ => by rw [h.configs], fun _ _ => by rw [h.files], fun _ _ => by rw [h.cache], h.now⟩

theorem Kept.same (h : Kept H s) (htask : s.tasks[t]? = some task)
    (honly : task.Only ns) (honly' : task'.Only ns)
    (hsame : Unchanged s.shared shared) (hfits : task'.Fits H shared)
    (hpending : ∀ m ∈ task'.pending,
      m ∈ task.pending ∨ shared.metadata.isExpired shared.now m = true)
    (hend : task.making = some ns → task'.making ≠ some ns →
      s.shared.metadata.registered ns = true)
    (hend' : task.removing = some ns → task'.removing = some ns)
    (hbegin : task'.making = some ns → s.Apart t ns)
    (hbegin' : task'.removing = some ns → task.removing = some ns) :
    Kept H ⟨shared, s.tasks.set t task'⟩ := by
  refine h.set htask (hsame.local ns) honly honly' hfits
    (.inr ⟨fun hr => by rw [hsame.registered]; exact hr, by rw [hsame.files]⟩)
    (.inr fun hc => by rw [hsame.cache]; exact hc) (fun hregistered hm' hr' hothers => ?_)
    hpending (.inl hsame.configs) (fun hm' => .inr (hbegin hm')) (fun hr' => .inl (hbegin' hr'))
  · rw [hsame.registered] at hregistered
    rw [hsame.files, hsame.cache]
    refine h.free ns hregistered fun t' task'' htask'' => ?_
    by_cases ht : t' = t
    · subst ht
      cases htask.symm.trans htask''
      refine ⟨fun hm => ?_, fun hr => hr' (hend' hr)⟩
      simp [hend hm hm'] at hregistered
    · exact hothers t' task'' ht htask''

theorem Task.only_of_idle (hmaking : task.making = none) (hremoving : task.removing = none) :
    task.Only ns := by
  intro ns' _
  simp [hmaking, hremoving]

variable (h : Kept H s) {option : RestoreOption δ}
include h

/-- A step of a call that neither makes nor removes a namespace, before or after. -/
theorem Kept.passive (htask : s.tasks[t]? = some task) (hsame : Unchanged s.shared shared)
    (hmaking : task.making = none) (hremoving : task.removing = none)
    (hmaking' : task'.making = none) (hremoving' : task'.removing = none)
    (hfits : task'.Fits H shared) (hpending : ∀ m ∈ task'.pending,
      m ∈ task.pending ∨ shared.metadata.isExpired shared.now m = true) :
    Kept H ⟨shared, s.tasks.set t task'⟩ := by
  -- the call concerns no namespace, so any will do
  have honly : task.Only H.defaultName := Task.only_of_idle hmaking hremoving
  refine h.same htask honly (Task.only_of_idle hmaking' hremoving') hsame hfits hpending
    (fun hm => ?_) (fun hr => ?_) (fun hm => ?_) (fun hr => ?_)
  · simp [hmaking] at hm
  · simp [hremoving] at hr
  · simp [hmaking'] at hm
  · simp [hremoving'] at hr

theorem Kept.stored (htask : s.tasks[t]? = some task)
    (hconcerned : task.concerned = some ns) {config : DatabaseConfig} {m : MetaStore}
    (hconfigs : m.configs = update s.shared.metadata.configs ns (some config))
    {created : NamespaceName → Bool} (hlisted : ∀ task ∈ s.tasks, ns ∉ task.pending)
    (honly' : task'.Only ns) (hmaking : task'.making = some ns → task.making = some ns)
    (hremoving : task'.removing = none) (hpending : task'.pending = [])
    (hfits : m.registered ns = true →
      task'.Fits H { s.shared with metadata := m, created := created }) :
    Kept H ⟨{ s.shared with metadata := m, created := created }, s.tasks.set t task'⟩ := by
  have hregistered : m.registered ns = true := by
    rw [MetaStore.registered, hconfigs, update_self]
    rfl
  refine h.set htask ⟨fun ns' hne => by rw [hconfigs, update_of_ne hne], fun _ _ => rfl,
    fun _ _ => rfl, rfl⟩ (Task.only_of_concerned hconcerned) honly' (hfits hregistered)
    (.inr ⟨fun _ => hregistered, rfl⟩) (.inr id) (fun hgone => ?_) ?_ (.inr (.inr hlisted))
    (fun hm => .inl (hmaking hm)) (fun hr => ?_)
  · cases hregistered.symm.trans hgone
  · rw [hpending]
    rintro _ ⟨⟩
  · simp [hremoving] at hr

theorem Kept.removed (htask : s.tasks[t]? = some (.destroyRemove ns rest)) {m : MetaStore}
    (hconfigs : m.configs = update s.shared.metadata.configs ns none)
    {created : NamespaceName → Bool} (hothers : ∀ task ∈ s.tasks, task.making ≠ some ns) :
    Kept H ⟨{ s.shared with metadata := m, created := created },
      s.tasks.set t (.destroyEntry ns rest)⟩ := by
  have hothers : s.Others t fun task'' => task''.making ≠ some ns :=
    fun t' task'' _ htask'' => hothers task'' (mem_of_getElem? htask'')
  refine h.set htask ⟨fun ns' hne => by rw [hconfigs, update_of_ne hne], fun _ _ => rfl,
    fun _ _ => rfl, rfl⟩ (Task.only_of_concerned rfl) (Task.only_of_concerned rfl) trivial
    (.inl hothers) (.inr id) (fun _ _ hr => absurd rfl hr) (fun m hm => .inl ?_)
    (.inr (.inl ?_)) (by rintro ⟨⟩) (fun _ => .inr hothers)
  · cases rest with
    | none => cases hm
    | some rest => exact mem_cons_of_mem ns hm
  · rw [MetaStore.registered, hconfigs, update_self]
    rfl

omit h in
theorem Shared.drop_local (s : Shared δ) (ns : NamespaceName) : Local ns s (s.drop ns) := by
  simp only [Shared.drop]
  split
  · exact ⟨fun _ _ => rfl, fun _ _ => rfl, fun _ hne => update_of_ne hne _ _, rfl⟩
  · exact (Unchanged.refl s).local ns

omit h in
theorem Shared.drop_metadata (s : Shared δ) :
    (s.drop ns).metadata = s.metadata :=
  congrArg Prod.fst (s.drop_registry ns)

omit h in
theorem Shared.drop_cache (s : Shared δ) (ns : NamespaceName) : (s.drop ns).cache ns = none := by
  simp only [Shared.drop]
  split
  · exact update_self _ _ _
  · assumption

theorem Kept.dropped {e : ℕ} (htask : s.tasks[t]? = some (.destroyEntry ns rest)) :
    Kept H ⟨s.shared.drop ns, s.tasks.set t (.destroyTake ns e rest)⟩ := by
  have hcache := s.shared.drop_cache ns
  refine h.set htask (s.shared.drop_local ns) (Task.only_of_concerned rfl)
    (Task.only_of_concerned rfl) hcache (.inl (h.others_of_removing htask rfl))
    (.inr fun _ => hcache) (fun _ _ hr => absurd rfl hr) (fun m hm => .inl ?_)
    (.inl (by rw [s.shared.drop_metadata])) (by rintro ⟨⟩) (fun _ => .inl rfl)
  cases rest with
  | none => cases hm
  | some rest => exact hm

theorem Kept.cleaned (htask : s.tasks[t]? = some (.destroyCleanup ns rest)) :
    Kept H ⟨s.shared.setFiles ns none, s.tasks.set t (.destroyed ns .ok rest)⟩ := by
  refine h.set htask ⟨fun _ _ => rfl, fun _ hne => update_of_ne hne _ _, fun _ _ => rfl, rfl⟩
    (Task.only_of_concerned rfl) (Task.only_of_idle rfl rfl) trivial
    (.inl (h.others_of_removing htask rfl)) (.inr id)
    (fun _ _ _ _ => ⟨update_self _ _ _, h.fits t _ htask⟩) (fun m hm => .inl ?_) (.inl rfl)
    (by rintro ⟨⟩) (by rintro ⟨⟩)
  cases rest with
  | none => cases hm
  | some rest => exact hm

/-- A step of a `create` that has its namespace registered. -/
theorem Kept.makes (htask : s.tasks[t]? = some task) (hmaking : task.making = some ns)
    (hregistered : s.shared.metadata.registered ns = true) (hlocal : Local ns s.shared shared)
    (hmeta : shared.metadata = s.shared.metadata) (honly' : task'.Only ns)
    (hfits : task'.Fits H shared) (hremoving : task'.removing = none)
    (hpending : task'.pending = []) : Kept H ⟨shared, s.tasks.set t task'⟩ := by
  have hothers := h.others_of_making htask hmaking
  refine h.set htask hlocal (Task.only_of_concerned (Task.concerned_of_making hmaking)) honly' hfits
    (.inl fun t' task'' hne htask'' => (hothers t' task'' hne htask'').1) (.inl hothers)
    (fun hgone => ?_) ?_ (.inl (by rw [hmeta])) (fun _ => .inl hmaking) (fun hr => ?_)
  · rw [hmeta] at hgone
    cases hregistered.symm.trans hgone
  · rw [hpending]
    rintro _ ⟨⟩
  · simp [hremoving] at hr

end step

end SqlAnywhere.Server.Namespaces
