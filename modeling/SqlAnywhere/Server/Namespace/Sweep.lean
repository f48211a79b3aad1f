import SqlAnywhere.Server.Namespace.Fork
import SqlAnywhere.Server.Namespace.Orderly

/-!
# Expiry and re-creation

* `Kept.step`, `Kept.right` — an orderly step keeps what holds in between, and is right
* `Sys.orderly_sound` — what sweeps and creations do in an orderly run
-/

namespace SqlAnywhere

open Function List

namespace Server

namespace Namespaces

variable {δ : Type} {H : Host δ} {fails : Fault → Bool}

section step

variable {s : Sys δ} {t : ℕ} {task task' : Task δ} {ns : NamespaceName} {shared : Shared δ}
  {fresh : Bool} {option option' : RestoreOption δ} (h : Kept H s)
include h

theorem Kept.load
    (htask : s.tasks[t]? = some (.load ns option (.create option' fresh)))
    (hstep : (Task.load ns option (.create option' fresh)).step H fails s.shared t =
      some (shared, task')) : Kept H ⟨shared, s.tasks.set t task'⟩ := by
  have hfits : (Task.load ns option (.create option' fresh)).Fits H s.shared := h.fits t _ htask
  have hsame := (Unchanged.refl s.shared).local ns
  simp only [Task.step] at hstep
  split at hstep
  · cases hstep
    exact h.makes htask rfl hfits.2.1 hsame rfl (Task.only_of_idle rfl rfl) trivial rfl rfl
  · split at hstep
    · cases hstep
      exact h.makes htask rfl hfits.2.1 ⟨hsame.1, hsame.2, hsame.3, rfl⟩ rfl
        (Task.only_of_concerned rfl) hfits rfl rfl
    · split_ifs at hstep
      cases hstep
      exact h.makes htask rfl hfits.2.1 hsame rfl (Task.only_of_idle rfl rfl) trivial rfl rfl

theorem Kept.setup
    (htask : s.tasks[t]? = some (.setup ns option (.create option' fresh)))
    (hstep : (Task.setup ns option (.create option' fresh)).step H fails s.shared t =
      some (shared, task')) : Kept H ⟨shared, s.tasks.set t task'⟩ := by
  have hfits : (Task.setup ns option (.create option' fresh)).Fits H s.shared := h.fits t _ htask
  obtain ⟨rfl, hregistered, hfresh⟩ := hfits
  simp only [Task.step] at hstep
  split at hstep
  · rename_i contents hopened _
    cases hstep
    refine h.makes htask rfl hregistered ⟨fun _ _ => rfl, fun _ hne => update_of_ne hne _ _,
      fun _ _ => rfl, rfl⟩ rfl (Task.only_of_concerned rfl) ⟨hregistered, fun hf => ?_⟩ rfl rfl
    rw [(hfresh hf).1] at hopened
    rw [hopened]
    exact update_self _ _ _
  · cases hstep
    refine h.makes htask rfl hregistered ⟨fun _ _ => ?_, fun _ hne => ?_, fun _ _ => ?_, ?_⟩ ?_
      (Task.only_of_idle rfl rfl) trivial rfl rfl
    all_goals
      simp only [After.release, Shared.leaveDir]
      split
    any_goals exact rfl
    exact update_of_ne hne _ _

theorem Kept.insert {i : ℕ}
    (htask : s.tasks[t]? = some (.insert ns i (.create option fresh)))
    (hstep : (Task.insert ns i (.create option fresh)).step H fails s.shared t =
      some (shared, task')) : Kept H ⟨shared, s.tasks.set t task'⟩ := by
  have hfits : (Task.insert ns i (.create option fresh)).Fits H s.shared := h.fits t _ htask
  obtain ⟨hconfigs, hfiles, hcache, hnow⟩ := s.shared.drop_local ns
  cases hstep
  exact h.makes htask rfl hfits.1 ⟨hconfigs, hfiles,
    fun ns' hne => (update_of_ne hne _ _).trans (hcache ns' hne), hnow⟩ (s.shared.drop_metadata)
    (Task.only_of_idle rfl rfl) trivial rfl rfl

variable (htask : s.tasks[t]? = some task) {rest : Option (List NamespaceName)}
include htask

/-- A `destroy` that is removing the namespace goes on with it. -/
theorem Kept.removes
    (hremoving : task.removing = some ns) (hconcerned : task.concerned = some ns)
    (hremoving' : task'.removing = some ns) (hmaking' : task'.making = none)
    (hconcerned' : task'.concerned = some ns) (hsame : Unchanged s.shared shared)
    (hfits : task'.Fits H shared) (hpending : task'.pending = task.pending)
    (hmaking : task.making = none) : Kept H ⟨shared, s.tasks.set t task'⟩ := by
  refine h.same htask (Task.only_of_concerned hconcerned) (Task.only_of_concerned hconcerned')
    hsame hfits (fun m hm => .inl ?_) (fun hm => ?_) (fun _ => hremoving') (fun hm => ?_)
    (fun _ => hremoving)
  · rw [← hpending]
    exact hm
  · simp [hmaking] at hm
  · simp [hmaking'] at hm

theorem Kept.gives_up (hmaking : task.making = none) (hremoving : task.removing = none)
    (hpending : task.pending = (rest.map (ns :: ·)).getD []) (outcome : Outcome) :
    Kept H ⟨s.shared, s.tasks.set t (.destroyed ns outcome rest)⟩ := by
  refine h.passive htask (.refl _) hmaking hremoving rfl rfl trivial fun m hm => .inl ?_
  rw [hpending]
  cases rest with
  | none => cases hm
  | some rest => exact mem_cons_of_mem ns hm

/-- **An orderly step of a call.** -/
theorem Kept.step_task
    (hconcerned : task.concerned.isSome = true) (horderly : task.Orderly s fails)
    (hstep : task.step H fails s.shared t = some (shared, task')) :
    Kept H ⟨shared, s.tasks.set t task'⟩ := by
  have hfits := h.fits t task htask
  cases task with
  | createCheck ns option config =>
    obtain ⟨hschema, hothers⟩ := horderly
    simp only [Task.step, hschema] at hstep
    split at hstep
    · cases hstep
      exact h.passive htask (.refl _) rfl rfl rfl rfl trivial (by rintro _ ⟨⟩)
    · cases hstep
      refine h.same htask (Task.only_of_concerned rfl) (Task.only_of_concerned rfl) (.refl _)
        ⟨fun hfresh => ?_, fun hfresh => ?_⟩ (by rintro _ ⟨⟩) (by rintro ⟨⟩) (by rintro ⟨⟩)
        (fun _ t' task'' _ htask'' => hothers task'' (mem_of_getElem? htask'')) (by rintro ⟨⟩)
      · exact h.free ns (by simpa using hfresh) fun t' task'' htask'' =>
          hothers task'' (mem_of_getElem? htask'')
      · simpa using hfresh
  | createHandle ns option config fresh =>
    cases hstep
    exact h.stored htask rfl rfl horderly (Task.only_of_concerned rfl) (fun _ => rfl) rfl
      rfl fun hregistered => ⟨hregistered, hfits.1⟩
  | createStore ns option config fresh =>
    have hconfigs := s.shared.metadata.process_configs ns config true (!fails .store)
    simp only [Task.step] at hstep
    generalize s.shared.metadata.process ns (some config) true (!fails .store) = made at hconfigs hstep
    obtain ⟨m, e | ⟨⟩⟩ := made
    · cases hstep
      exact h.stored htask rfl hconfigs horderly (Task.only_of_idle rfl rfl)
        (by rintro ⟨⟩) rfl rfl fun _ => trivial
    · cases hstep
      exact h.stored htask rfl hconfigs horderly (Task.only_of_concerned rfl) (fun _ => rfl)
        rfl rfl fun hregistered => ⟨rfl, hregistered, hfits.2⟩
  | update ns config =>
    have hconfigs := s.shared.metadata.process_configs ns config true (!fails .store)
    simp only [Task.step] at hstep
    generalize s.shared.metadata.process ns (some config) true (!fails .store) = made at hconfigs hstep
    obtain ⟨m, e | ⟨⟩⟩ := made
    all_goals
      cases hstep
      exact h.stored htask rfl hconfigs horderly (Task.only_of_idle rfl rfl)
        (by rintro ⟨⟩) rfl rfl fun _ => trivial
  | load ns option after =>
    cases after with
    | create option' fresh => exact h.load htask hstep
    | with_ | fork => cases hconcerned
  | setup ns option after =>
    cases after with
    | create option' fresh => exact h.setup htask hstep
    | with_ | fork => cases hconcerned
  | insert ns i after =>
    cases after with
    | create option fresh => exact h.insert htask hstep
    | with_ | fork => cases hconcerned
  | destroyStart ns rest =>
    simp only [Task.step] at hstep
    split_ifs at hstep
    · cases hstep
      exact h.gives_up htask rfl rfl (by cases rest <;> rfl) _
    · cases hstep
      exact h.passive htask (.refl _) rfl rfl rfl rfl trivial
        fun m hm => .inl (by cases rest <;> exact hm)
  | destroyRemove ns rest =>
    have hspec := s.shared.metadata.remove_spec ns (!fails .remove)
    simp only [Task.step] at hstep
    generalize s.shared.metadata.remove ns (!fails .remove) = made at hspec hstep
    cases hspec with
    | failed | absent =>
      cases hstep
      exact h.gives_up htask rfl rfl (by cases rest <;> rfl) _
    | removed config links hns hsub hfree =>
      cases hstep
      exact h.removed htask rfl horderly
  | destroyEntry ns rest =>
    simp only [Task.step] at hstep
    split at hstep
    · cases hstep
      exact h.dropped htask
    · rename_i hnone
      cases hstep
      exact h.removes htask rfl rfl rfl rfl rfl (.refl _) hnone (by cases rest <;> rfl) rfl
  | destroyTake ns e rest =>
    simp only [Task.step] at hstep
    split_ifs at hstep
    split at hstep
    · cases hstep
      exact h.removes htask rfl rfl rfl rfl rfl ⟨rfl, rfl, rfl, rfl⟩ hfits (by cases rest <;> rfl) rfl
    · cases hstep
      exact h.removes htask rfl rfl rfl rfl rfl (.refl _) hfits (by cases rest <;> rfl) rfl
  | destroyInstance ns e i rest =>
    cases hstep
    exact h.removes htask rfl rfl rfl rfl rfl ⟨rfl, rfl, rfl, rfl⟩ hfits (by cases rest <;> rfl) rfl
  | destroyCleanup ns rest =>
    simp only [Task.step, show fails .cleanup = false from horderly, Bool.false_eq_true,
      if_false] at hstep
    cases hstep
    exact h.cleaned htask
  | destroyed ns outcome rest =>
    simp only [Task.step] at hstep
    split at hstep
    · cases hstep
      exact h.passive htask (.refl _) rfl rfl rfl rfl trivial fun m => .inl
    · cases hstep
  | _ => cases hconcerned

omit htask h

theorem isExpired_mono {m : MetaStore} {now now' : ℕ} (hle : now ≤ now') {ns : NamespaceName}
    (h : m.isExpired now ns = true) : m.isExpired now' ns = true := by
  simp only [MetaStore.isExpired, Option.any_eq_true, decide_eq_true_eq] at h ⊢
  obtain ⟨config, hconfig, expiry, hexpiry, hpassed⟩ := h
  exact ⟨config, hconfig, expiry, hexpiry, Nat.le_trans hpassed hle⟩

include h

theorem Kept.env (hconfigs : shared.metadata.configs = s.shared.metadata.configs)
    (hfiles : shared.files = s.shared.files)
    (hcache : ∀ ns, s.shared.cache ns = none → shared.cache ns = none)
    (hnow : s.shared.now ≤ shared.now) : Kept H ⟨shared, s.tasks⟩ := by
  have hregistered : ∀ ns, shared.metadata.registered ns = s.shared.metadata.registered ns := by
    intro ns
    rw [MetaStore.registered, hconfigs, MetaStore.registered]
  constructor
  · intro ns hgone hnone
    rw [hregistered] at hgone
    obtain ⟨hf, hc⟩ := h.free ns hgone hnone
    rw [hfiles]
    exact ⟨hf, hcache ns hc⟩
  · intro t task htask
    exact (h.fits t task htask).mono (fun ns _ hr => (hregistered ns).trans hr)
      (fun _ _ => by rw [hfiles]) (fun ns _ => hcache ns)
  · intro t task htask ns hns hreg
    rw [hregistered] at hreg
    have hexpired := isExpired_mono hnow (h.pending t task htask ns hns hreg)
    simpa only [MetaStore.isExpired, hconfigs] using hexpired
  · exact h.alone

theorem Kept.start (htask : task.isCall = true) :
    Kept H ⟨s.shared, s.tasks ++ [task]⟩ := by
  have hnew : task.making = none ∧ task.removing = none ∧ task.pending = [] ∧
      task.Fits H s.shared := by
    cases task with
    | destroyStart ns rest =>
      cases rest with
      | none => exact ⟨rfl, rfl, rfl, trivial⟩
      | some rest => cases htask
    | _ => first | exact ⟨rfl, rfl, rfl, trivial⟩ | cases htask
  obtain ⟨hmaking, hremoving, hpending, hfits⟩ := hnew
  have hold : ∀ {t : ℕ} {task'' : Task δ}, s.tasks[t]? = some task'' →
      (s.tasks ++ [task])[t]? = some task'' := by
    intro t task'' htask''
    rw [List.getElem?_append_left (List.getElem?_eq_some_iff.1 htask'').1]
    exact htask''
  constructor
  · intro ns hgone hnone
    exact h.free ns hgone fun t' task'' htask'' => hnone t' task'' (hold htask'')
  · intro t' task'' htask''
    rcases getElem?_append_cases htask'' with htask'' | rfl
    · exact h.fits t' task'' htask''
    · exact hfits
  · intro t' task'' htask'' m hm
    rcases getElem?_append_cases htask'' with htask'' | rfl
    · exact h.pending t' task'' htask'' m hm
    · simp [hpending] at hm
  · intro t₁ t₂ task₁ task₂ ns h₁ h₂ hm hboth
    rcases getElem?_append_cases h₁ with hold₁ | rfl
    · rcases getElem?_append_cases h₂ with hold₂ | rfl
      · exact h.alone t₁ t₂ task₁ task₂ ns hold₁ hold₂ hm hboth
      · rw [hmaking, hremoving] at hboth
        rcases hboth with hboth | hboth <;> cases hboth
    · simp [hmaking] at hm

/-- **An orderly step of the system.** -/
theorem Kept.step {s' : Sys δ} {a : Action δ} (horderly : Orderly s a)
    (hstep : s.step H a = some s') : Kept H s' := by
  cases a with
  | start task =>
    simp only [Sys.step] at hstep
    split_ifs at hstep with htask
    cases hstep
    exact h.start htask
  | step t fails =>
    obtain ⟨task, shared, task', htask, htaskStep, rfl⟩ := Sys.step_task hstep
    obtain ⟨hconcerned, horderly⟩ := horderly task htask
    exact h.step_task htask hconcerned horderly htaskStep
  | expired t names =>
    simp only [Sys.step] at hstep
    split at hstep
    · rename_i htask
      split_ifs at hstep with hexpired
      cases hstep
      rw [all_eq_true] at hexpired
      cases names with
      | nil => exact h.passive htask (.refl _) rfl rfl rfl rfl trivial (by rintro _ ⟨⟩)
      | cons ns rest =>
        exact h.passive htask (.refl _) rfl rfl rfl rfl trivial fun m hm => .inr (hexpired m hm)
    · cases hstep
  | iter t entries =>
    simp only [Sys.step] at hstep
    split at hstep
    · rename_i htask
      split_ifs at hstep
      cases hstep
      exact h.passive htask (.refl _) rfl rfl rfl rfl trivial (by rintro _ ⟨⟩)
    · cases hstep
  | evict ns =>
    cases hstep
    refine h.env ?_ ?_ (fun ns' hns' => ?_) ?_
    all_goals
      simp only [Shared.drop]
      split
    any_goals exact rfl
    · by_cases heq : ns' = ns
      · subst heq
        exact update_self _ _ _
      · exact (update_of_ne heq _ _).trans hns'
    · exact hns'
    · exact Nat.le_refl _
    · exact Nat.le_refl _
  | listen e =>
    obtain ⟨shared, hlisten, rfl⟩ := Option.map_eq_some_iff.1 hstep
    simp only [Shared.listen] at hlisten
    repeat' split at hlisten
    all_goals cases hlisten
    · exact h.env rfl rfl (fun _ hc => hc) (Nat.le_refl _)
    · exact h.env rfl rfl (fun _ hc => hc) (Nat.le_refl _)
  | listened e =>
    obtain ⟨shared, hlistened, rfl⟩ := Option.map_eq_some_iff.1 hstep
    simp only [Shared.listened] at hlistened
    split at hlistened
    all_goals cases hlistened
    exact h.env rfl rfl (fun _ hc => hc) (Nat.le_refl _)
  | tick =>
    cases hstep
    exact h.env rfl rfl (fun _ hc => hc) (Nat.le_succ _)
  | migrate schema pending =>
    cases hstep
    exact h.env rfl rfl (fun _ hc => hc) (Nat.le_refl _)

omit h

/-- A `destroy` that has failed has not removed the namespace. -/
theorem Task.step_failed {e : Error}
    (horderly : task.Orderly s fails)
    (hstep : task.step H fails s.shared t = some (shared, .destroyed ns (.failed e) rest))
    (hshutdown : e ≠ .namespaceStoreShutdown) (habsent : e ≠ .namespaceDoesntExist ns) :
    shared.metadata.configs ns = s.shared.metadata.configs ns ∧
      shared.metadata.registered ns = true := by
  cases task with
  | destroyStart ns' rest' =>
    simp only [step] at hstep
    split_ifs at hstep
    · cases hstep
      exact absurd rfl hshutdown
    · cases hstep
  | destroyRemove ns' rest' =>
    have hspec := s.shared.metadata.remove_spec ns' (!fails .remove)
    simp only [step] at hstep
    generalize s.shared.metadata.remove ns' (!fails .remove) = made at hspec hstep
    cases hspec with
    | failed e' hns =>
      cases hstep
      exact ⟨rfl, hns⟩
    | absent hns =>
      cases hstep
      exact absurd rfl habsent
    | removed config links hns hsub hfree => cases hstep
  | destroyCleanup ns' rest' =>
    simp only [step, show fails .cleanup = false from horderly, Bool.false_eq_true,
      if_false] at hstep
    cases hstep
  | load ns' option after =>
    simp only [step] at hstep
    repeat' split at hstep
    all_goals cases after <;> cases hstep
  | insert ns' i after =>
    cases after <;> cases hstep
  | _ =>
    simp only [step] at hstep
    repeat' split at hstep
    all_goals cases hstep

/-- A `create` that returns has set its namespace up. -/
theorem Kept.step_created (h : Kept H s) (htask : s.tasks[t]? = some task)
    (hstep : task.step H fails s.shared t = some (shared, .created ns option true)) :
    shared.files ns = H.opened ns option none := by
  have hfits := h.fits t task htask
  cases task with
  | load ns' option' after =>
    cases after with
    | create option'' fresh =>
      simp only [Task.step] at hstep
      split at hstep
      · rename_i e he
        cases hstep
        cases (hfits.2.2 rfl).2.symm.trans he
      · repeat' split at hstep
        all_goals cases hstep
    | with_ | fork =>
      simp only [Task.step] at hstep
      repeat' split at hstep
      all_goals cases hstep
  | insert ns' i after =>
    cases after with
    | create option'' fresh =>
      cases hstep
      rw [← hfits.2 rfl]
      simp only [Shared.drop]
      split <;> rfl
    | with_ | fork => cases hstep
  | _ =>
    simp only [Task.step] at hstep
    repeat' split at hstep
    all_goals cases hstep

/-- **An orderly step is right.** -/
theorem Kept.right {s' : Sys δ} {a : Action δ} (h : Kept H s) (horderly : Orderly s a)
    (hstep : s.step H a = some s') : Right H s a s' := by
  have hself : ∀ {t : ℕ} {fails : Fault → Bool}, a = .step t fails →
      ∃ task shared task', s.tasks[t]? = some task ∧
        task.step H fails s.shared t = some (shared, task') ∧ task.Orderly s fails ∧
        s'.shared = shared ∧ s'.tasks[t]? = some task' := by
    rintro t fails rfl
    obtain ⟨task, shared, task', htask, htaskStep, rfl⟩ := Sys.step_task hstep
    have hlt := (List.getElem?_eq_some_iff.1 htask).1
    exact ⟨task, shared, task', htask, htaskStep, (horderly task htask).2, rfl, by simp [hlt]⟩
  constructor
  · intro t fails ns rest ha htask htask'
    obtain ⟨task, shared, task', hold, htaskStep, -, -, hnew⟩ := hself ha
    cases htask.symm.trans hold
    cases htask'.symm.trans hnew
    have hspec := s.shared.metadata.remove_spec ns (!fails .remove)
    simp only [Task.step] at htaskStep
    generalize s.shared.metadata.remove ns (!fails .remove) = made at hspec htaskStep
    cases hspec with
    | failed | absent => cases htaskStep
    | removed config links hns hsub hfree =>
      exact h.pending t _ htask ns mem_cons_self (Option.isSome_iff_exists.2 ⟨config, hns⟩)
  · intro t fails ns e rest ha htask' hshutdown habsent
    obtain ⟨task, shared, task', htask, htaskStep, horderly, rfl, hnew⟩ := hself ha
    cases htask'.symm.trans hnew
    exact Task.step_failed horderly htaskStep hshutdown habsent
  · intro t fails ns option ha htask'
    obtain ⟨task, shared, task', htask, htaskStep, -, rfl, hnew⟩ := hself ha
    cases htask'.symm.trans hnew
    exact h.step_created htask htaskStep

end step

/-! ### Runs -/

namespace Sys

theorem started_kept {m : MetaStore} {files : NamespaceName → Option δ} (now : ℕ)
    (hfiles : ∀ ns, m.registered ns = false → files ns = none) :
    Kept H (started m files now) where
  free := fun ns hns _ => ⟨hfiles ns hns, rfl⟩
  fits := fun t task htask => by simp [started] at htask
  pending := fun t task htask => by simp [started] at htask
  alone := fun t t' task task' ns htask => by simp [started] at htask

/-- **Expiry and re-creation**: each step of an orderly run is right. -/
theorem orderly_sound (m : MetaStore) (files : NamespaceName → Option δ) (now : ℕ)
    (hfiles : ∀ ns, m.registered ns = false → files ns = none) (as : List (Action δ))
    (horderly : Run.Along (Sys.step H) Orderly (started m files now) as) :
    Run.Along (Sys.step H) (fun s a => ∀ s', s.step H a = some s' → Right H s a s')
      (started m files now) as :=
  Run.along_imp (I := Kept H) (fun _ _ h horderly _ hstep => h.right horderly hstep)
    (fun _ _ _ h horderly hstep => h.step horderly hstep) (started_kept now hfiles) horderly

end Sys

instance (s : Sys δ) (fails : Fault → Bool) (task : Task δ) : Decidable (task.Orderly s fails) := by
  unfold Task.Orderly
  split <;> infer_instance

instance (s : Sys δ) (a : Action δ) : Decidable (Orderly s a) := by
  unfold Orderly
  split <;> infer_instance

namespace Sys

/-- The namespace expires, a sweep deletes it, and it is created again from a dump. -/
def recreate : List (Action String) :=
  [.start (.update "archive" ⟨none, false, some 0⟩), .step 0 fun _ => false,
      .start .sweep, .expired 1 ["archive"]] ++
    List.replicate 4 (.step 1 fun _ => false) ++
    .start (.createCheck "archive" (.dump "new") .initial) ::
      List.replicate 6 (.step 2 fun _ => false)

theorem twoFiles_registered (ns : NamespaceName) (h : Store.twoNamespaces.registered ns = false) :
    Store.twoFiles ns = none := by
  simpa [Store.twoNamespaces, Store.twoConfigs, Store.twoFiles, MetaStore.registered] using h

theorem orderly_sound_recreate :
    (∃ s, Run.exec (Sys.step Store.plainHost) (started Store.twoNamespaces Store.twoFiles 0) recreate =
        some s ∧ s.shared.files "archive" = some "new") ∧
    Run.Along (Sys.step Store.plainHost)
      (fun s a => ∀ s', s.step Store.plainHost a = some s' → Right Store.plainHost s a s')
      (started Store.twoNamespaces Store.twoFiles 0) recreate :=
  ⟨⟨_, rfl, by decide⟩,
    orderly_sound Store.twoNamespaces Store.twoFiles 0 twoFiles_registered recreate
      (by decide)⟩

/-- A `destroy` of `archive`, whose clean-up fails. -/
def failedDestroy : List (Action String) :=
  .start (.destroyStart "archive" none) :: List.replicate 4 (.step 0 fun fault => fault = .cleanup)

/-- **A namespace is created over what a failed clean-up has left**: the `destroy` has failed and the
namespace is not registered any more, and a `create` of it that returns starts with the old files.
And a sweep removes a namespace whose expiry was put off after it was listed. -/
theorem left_behind :
    (∃ s, Run.exec (Sys.step Store.plainHost) (started Store.twoNamespaces Store.twoFiles 0)
        failedDestroy = some s ∧
      s.tasks[0]? = some (.destroyed "archive" (.failed .cleanup) none) ∧
      s.shared.metadata.registered "archive" = false) ∧
    (∃ s, Run.exec (Sys.step Store.plainHost) (started Store.twoNamespaces Store.twoFiles 0)
        (failedDestroy ++ .start (.createCheck "archive" .latest .initial) ::
          List.replicate 6 (.step 1 fun _ => false)) = some s ∧
      s.tasks[1]? = some (.created "archive" .latest true) ∧
      s.shared.files "archive" = some "archive" ∧
      Store.plainHost.opened "archive" .latest none = some "empty") ∧
    ∃ s s' : Sys String, Run.exec (Sys.step Store.plainHost)
        (started Store.twoNamespaces Store.twoFiles 0)
        [.start (.update "archive" ⟨none, false, some 0⟩), .step 0 fun _ => false,
          .start .sweep, .expired 1 ["archive"], .start (.update "archive" ⟨none, false, some 9⟩),
          .step 2 fun _ => false, .step 1 fun _ => false] = some s ∧
      s.shared.metadata.isExpired s.shared.now "archive" = false ∧
      s.step Store.plainHost (.step 1 fun _ => false) = some s' ∧
      s.tasks[1]? = some (.destroyRemove "archive" (some [])) ∧
      s'.tasks[1]? = some (.destroyEntry "archive" (some [])) ∧
      s'.shared.metadata.registered "archive" = false :=
  ⟨⟨_, rfl, rfl, by decide⟩, ⟨_, rfl, rfl, by decide, by decide⟩,
    _, _, rfl, by decide, rfl, rfl, rfl, by decide⟩

end Sys

end Namespaces

end Server

end SqlAnywhere
