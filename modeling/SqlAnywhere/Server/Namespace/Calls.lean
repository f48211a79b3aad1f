import SqlAnywhere.Lib.Run
import SqlAnywhere.Server.Namespace.MetaStore

/-!
# The calls of the namespace store, one at a time

Each call of the store as a function of its state, with the steps that may fail on their own as an
argument.  A cache entry holds the instance of a namespace, or nothing.

* `Store.create`, `Store.with_`, `Store.checkpoint`, `Store.fork`, `Store.reset`, `Store.destroy` — the
  calls of the source
* `Store.call` — any of them, or the cache dropping an entry and then shutting its instance down
* `Store.call_wf` — every call leaves the metastore well formed
-/

namespace SqlAnywhere.Server.Namespaces

open Function

/-- The steps of a call that may fail on their own. -/
inductive Fault
  /-- setting the namespace up, in a fork its source -/
  | setup
  /-- writing to the database of the metastore -/
  | store
  /-- removing a namespace from the database of the metastore -/
  | remove
  | checkpoint
  | cleanup
  /-- copying the source of a fork to a temporary directory -/
  | restore
  /-- moving that to its place -/
  | rename
  /-- setting the target of a fork up -/
  | setupTarget
  /-- removing the directory of a failed fork -/
  | removeDir
  deriving DecidableEq

inductive RestoreOption (δ : Type)
  | latest
  | dump (contents : δ)
  | generation (uuid : ℕ)
  | pointInTime (timestamp : ℕ)

/-- The server around the store. -/
structure Host (δ : Type) where
  allowLazyCreation : Bool
  /-- `NamespaceName::default` -/
  defaultName : NamespaceName
  /-- `bottomless_replication` is configured -/
  bottomless : Bool
  /-- what a directory holds once a namespace was set up on it, unless that is refused; on no directory
  a new one is made -/
  opened : NamespaceName → RestoreOption δ → Option δ → Option δ
  /-- a set-up of what is there does not change it -/
  opened_latest : ∀ ns contents, opened ns .latest (some contents) = some contents
  /-- a new directory is not refused -/
  opened_none : ∀ ns option, (opened ns option none).isSome = true
  /-- what a set-up that fails leaves of a new directory, when it is left -/
  partly : δ
  /-- what a fork copies, of what the source has now or of its backup at a moment -/
  copied : NamespaceName → δ → Option ℕ → δ

/-- The state of the store.  Instances have numbers. -/
structure Store (δ : Type) where
  metadata : MetaStore
  cache : NamespaceName → Option (Option ℕ)
  /-- the directories of namespaces -/
  files : NamespaceName → Option δ
  /-- instances that are set up and neither shut down nor destroyed, with their names -/
  live : ℕ → Option NamespaceName
  /-- instances of entries that the cache has dropped, to be shut down -/
  evicted : List ℕ
  next : ℕ
  hasShutdown : Bool

inductive Error
  | namespaceStoreShutdown
  | namespaceDoesntExist (ns : NamespaceName)
  | namespaceAlreadyExist (ns : NamespaceName)
  | metaStore (e : MetaError)
  /-- an attempt to set the namespace up has failed -/
  | setup (ns : NamespaceName)
  | cleanup
  | checkpoint
  | fork
  deriving DecidableEq

inductive Outcome
  | ok
  /-- the function of a `with` was run on an instance -/
  | ran (instance_ : ℕ)
  | failed (e : Error)
  /-- the call waits for a lock that it holds itself -/
  | hangs
  deriving DecidableEq

variable {δ : Type} (H : Host δ) (fails : Fault → Bool)

namespace Store

def setMeta (s : Store δ) (m : MetaStore) : Store δ := { s with metadata := m }

def setEntry (s : Store δ) (ns : NamespaceName) (entry : Option (Option ℕ)) : Store δ :=
  { s with cache := Function.update s.cache ns entry }

def setFiles (s : Store δ) (ns : NamespaceName) (contents : Option δ) : Store δ :=
  { s with files := Function.update s.files ns contents }

/-- The instance is shut down or destroyed. -/
def kill (s : Store δ) (i : ℕ) : Store δ := { s with live := Function.update s.live i none }

/-- A new instance of a namespace. -/
def spawn (s : Store δ) (ns : NamespaceName) : Store δ :=
  { s with live := Function.update s.live s.next (some ns), next := s.next + 1 }

def registered (s : Store δ) (ns : NamespaceName) : Bool := s.metadata.registered ns

def isSchema (s : Store δ) (ns : NamespaceName) : Bool :=
  (s.metadata.configs ns).any fun config => config.isSharedSchema

/-- The instance in the cache entry of a namespace. -/
def loaded (s : Store δ) (ns : NamespaceName) : Option ℕ := (s.cache ns).join

def handle (s : Store δ) (ns : NamespaceName) : Store δ := s.setMeta (s.metadata.handle ns)

/-- `Cache::get_with` with an empty entry as the default. -/
def getWith (s : Store δ) (ns : NamespaceName) : Store δ :=
  match s.cache ns with
  | some _ => s
  | none => s.setEntry ns (some none)

/-- `make_namespace`.  A directory that was made for it is removed when it fails, but not that of a
schema. -/
def makeNamespace (s : Store δ) (ns : NamespaceName) (option : RestoreOption δ) (ok : Bool) :
    Store δ × Option ℕ :=
  match H.opened ns option (s.files ns), ok with
  | some contents, true => ((s.setFiles ns (some contents)).spawn ns, some s.next)
  | _, _ =>
    if (s.files ns).isNone && s.isSchema ns then (s.setFiles ns (some H.partly), none) else (s, none)

/-- `load_namespace`: an entry that is there counts as loaded. -/
def loadNamespace (s : Store δ) (ns : NamespaceName) (option : RestoreOption δ) (ok : Bool) :
    Store δ × Option Error :=
  match s.cache ns with
  | some _ => (s, none)
  | none =>
    match s.makeNamespace H ns option ok with
    | (s, some i) => (s.setEntry ns (some (some i)), none)
    | (s, none) => (s, some (.setup ns))

def with_ (s : Store δ) (ns : NamespaceName) : Store δ × Outcome :=
  if ns ≠ H.defaultName && !s.registered ns && !H.allowLazyCreation then
    (s, .failed (.namespaceDoesntExist ns))
  else
    match (s.handle ns).loadNamespace H ns .latest (!fails .setup) with
    | (s, some e) => (s, .failed e)
    | (s, none) =>
      match s.loaded ns with
      | some i => (s, .ran i)
      -- the namespace was taken out of the entry
      | none => (s, .failed (.namespaceDoesntExist ns))

def checkpoint (s : Store δ) (ns : NamespaceName) : Store δ × Outcome :=
  let s := s.getWith ns
  if (s.loaded ns).isSome && fails .checkpoint then (s, .failed .checkpoint) else (s, .ok)

/-- The instance of the entry, if any, is taken out and shut down or destroyed; `entry` is what becomes
of the entry. -/
def takeOut (s : Store δ) (ns : NamespaceName) (entry : Option (Option ℕ)) : Store δ :=
  match s.loaded ns with
  | some i => (s.kill i).setEntry ns entry
  | none => s.setEntry ns entry

def reset (s : Store δ) (ns : NamespaceName) (option : RestoreOption δ) : Store δ × Outcome :=
  let s := ((s.getWith ns).takeOut ns (some none)).handle ns
  if fails .cleanup then (s, .failed .cleanup)
  else
    match (s.setFiles ns none).makeNamespace H ns option (!fails .setup) with
    | (s, some i) => (s.setEntry ns (some (some i)), .ok)
    | (s, none) => (s, .failed (.setup ns))

def destroy (s : Store δ) (ns : NamespaceName) : Store δ × Outcome :=
  if s.hasShutdown then (s, .failed .namespaceStoreShutdown)
  else
    match s.metadata.remove ns (!fails .remove) with
    | (_, .error e) => (s, .failed (.metaStore e))
    | (_, .ok none) => (s, .failed (.namespaceDoesntExist ns))
    | (m, .ok (some _)) =>
      let s := (s.setMeta m).takeOut ns none
      if fails .cleanup then (s, .failed .cleanup) else (s.setFiles ns none, .ok)

/-- `ForkTask::fork` has failed: the directory of the target is removed, if that succeeds. -/
def abandonFork (s : Store δ) (target : NamespaceName) : Store δ :=
  if fails .removeDir then s else s.setFiles target none

/-- `ForkTask::fork` -/
def forkFiles (s : Store δ) (source target : NamespaceName) (timestamp : Option ℕ) :
    Store δ × Option ℕ :=
  if fails .restore then (s.abandonFork fails target, none)
  -- a directory cannot be moved over one that is not empty
  else if fails .rename || (s.files target).isSome then (s.abandonFork fails target, none)
  else
    let contents := (s.files source).map fun contents => H.copied source contents timestamp
    match (s.setFiles target contents).makeNamespace H target .latest (!fails .setupTarget) with
    | (s, some i) => (s, some i)
    | (s, none) => (s.abandonFork fails target, none)

/-- The guard of a fork is dropped: the target is taken out of the metastore, if that succeeds. -/
def dropGuard (s : Store δ) (target : NamespaceName) : Store δ :=
  s.setMeta (s.metadata.remove target (!fails .remove)).1

/-- `fork` from where the target is registered and its guard is set. -/
def forkGuarded (s : Store δ) (source target : NamespaceName) (config : DatabaseConfig)
    (timestamp : Option ℕ) : Store δ × Outcome :=
  let s := s.setMeta ((s.metadata.handle target).process target (some config) false true).1
  if timestamp.isSome && !H.bottomless then (s.dropGuard fails target, .failed .fork)
  else
    match s.forkFiles H fails source target timestamp with
    | (s, none) => (s.dropGuard fails target, .failed .fork)
    | (s, some i) =>
      let s := s.setEntry target (some (some i))
      match s.metadata.process target none true (!fails .store) with
      | (_, .error e) => (s.dropGuard fails target, .failed (.metaStore e))
      | (m, .ok ()) => (s.setMeta m, .ok)

def fork (s : Store δ) (source target : NamespaceName) (config : DatabaseConfig)
    (timestamp : Option ℕ) : Store δ × Outcome :=
  if s.hasShutdown then (s, .failed .namespaceStoreShutdown)
  else if !s.registered source then (s, .failed (.namespaceDoesntExist source))
  else
    let s := s.getWith target
    if (s.loaded target).isSome then (s, .failed (.namespaceAlreadyExist target))
    -- the entry of the source is the one whose lock is held
    else if source = target then (s, .hangs)
    else
      match (s.handle source).loadNamespace H source .latest (!fails .setup) with
      | (s, some e) => (s, .failed e)
      | (s, none) =>
        match s.loaded source with
        | none => (s, .failed (.namespaceDoesntExist source))
        | some _ => s.forkGuarded H fails source target config timestamp

def create (s : Store δ) (ns : NamespaceName) (option : RestoreOption δ) (config : DatabaseConfig) :
    Store δ × Outcome :=
  match config.sharedSchemaName with
  | some schema => s.fork H fails schema ns config none
  | none =>
    if !(H.allowLazyCreation || ns = H.defaultName) && s.registered ns then
      (s, .failed (.namespaceAlreadyExist ns))
    else
      match (s.metadata.handle ns).process ns (some config) true (!fails .store) with
      | (m, .error e) => (s.setMeta m, .failed (.metaStore e))
      | (m, .ok ()) =>
        match (s.setMeta m).loadNamespace H ns option (!fails .setup) with
        | (s, some e) => (s, .failed e)
        | (s, none) => (s, .ok)

/-- The cache drops an entry. -/
def evict (s : Store δ) (ns : NamespaceName) : Store δ :=
  { s.setEntry ns none with evicted := (s.loaded ns).toList ++ s.evicted }

/-- The eviction listener for one of the dropped entries. -/
def listen (s : Store δ) (i : ℕ) : Store δ :=
  if i ∈ s.evicted then { s.kill i with evicted := s.evicted.erase i } else s

end Store

inductive Call (δ : Type)
  | create (ns : NamespaceName) (option : RestoreOption δ) (config : DatabaseConfig)
  | with_ (ns : NamespaceName)
  | checkpoint (ns : NamespaceName)
  | fork (source target : NamespaceName) (config : DatabaseConfig) (timestamp : Option ℕ)
  | reset (ns : NamespaceName) (option : RestoreOption δ)
  | destroy (ns : NamespaceName)
  | evict (ns : NamespaceName)
  | listen (instance_ : ℕ)
  /-- migration jobs on a schema are registered, or finished -/
  | migrate (schema : NamespaceName) (pending : Bool)

def Store.call (s : Store δ) : Call δ → Store δ × Outcome
  | .create ns option config => s.create H fails ns option config
  | .with_ ns => s.with_ H fails ns
  | .checkpoint ns => s.checkpoint fails ns
  | .fork source target config timestamp => s.fork H fails source target config timestamp
  | .reset ns option => s.reset H fails ns option
  | .destroy ns => s.destroy fails ns
  | .evict ns => (s.evict ns, .ok)
  | .listen i => (s.listen i, .ok)
  | .migrate schema pending =>
    (s.setMeta { s.metadata with pending := Function.update s.metadata.pending schema pending }, .ok)

/-- A call that returns, as a step. -/
def Store.step (s : Store δ) (e : Call δ × (Fault → Bool)) : Option (Store δ) :=
  match s.call H e.2 e.1 with
  | (_, .hangs) => none
  | (s, _) => some s

/-- The store of a server that was just started. -/
def Store.started (m : MetaStore) (files : NamespaceName → Option δ) : Store δ :=
  ⟨m, fun _ => none, files, fun _ => none, [], 0, false⟩

/-! ### What the calls leave alone -/

namespace Store

variable {H fails} (s : Store δ) (ns : NamespaceName)

@[simp] theorem setEntry_cache_self (entry : Option (Option ℕ)) :
    (s.setEntry ns entry).cache ns = entry :=
  update_self _ _ _

@[simp] theorem setFiles_files_self (contents : Option δ) :
    (s.setFiles ns contents).files ns = contents :=
  update_self _ _ _

theorem setFiles_files_of_ne {ns ns' : NamespaceName} (hne : ns' ≠ ns) (contents : Option δ) :
    (s.setFiles ns contents).files ns' = s.files ns' :=
  update_of_ne hne _ _

@[simp] theorem getWith_metadata : (s.getWith ns).metadata = s.metadata := by
  simp only [getWith]
  split <;> rfl

@[simp] theorem takeOut_metadata (entry : Option (Option ℕ)) :
    (s.takeOut ns entry).metadata = s.metadata := by
  simp only [takeOut]
  split <;> rfl

theorem setFiles_idem (contents contents' : Option δ) :
    (s.setFiles ns contents').setFiles ns contents = s.setFiles ns contents := by
  simp only [setFiles, update_idem]

theorem setFiles_files : s.setFiles ns (s.files ns) = s := by
  rw [setFiles, update_eq_self]

theorem abandonFork_eq (fails : Fault → Bool) :
    ∃ contents, s.abandonFork fails ns = s.setFiles ns contents := by
  simp only [abandonFork]
  split_ifs
  · exact ⟨_, (setFiles_files s ns).symm⟩
  · exact ⟨_, rfl⟩

/-- A set-up makes an instance, or fails and leaves all but the directory alone. -/
inductive Made : Store δ × Option ℕ → Prop
  | ok (contents : Option δ) : Made ((s.setFiles ns contents).spawn ns, some s.next)
  | failed (contents : Option δ) : Made (s.setFiles ns contents, none)

/-- A namespace that is loaded has an entry already or is set up. -/
inductive Loads : Store δ × Option Error → Prop
  | cached {entry : Option ℕ} (hentry : s.cache ns = some entry) : Loads (s, none)
  | made (hentry : s.cache ns = none) (contents : Option δ) :
      Loads (((s.setFiles ns contents).spawn ns).setEntry ns (some (some s.next)), none)
  | failed (contents : Option δ) : Loads (s.setFiles ns contents, some (.setup ns))

variable {s ns} {option : RestoreOption δ} {ok : Bool} {source target : NamespaceName}
  {timestamp : Option ℕ} {result : Store δ × Option ℕ} {result' : Store δ × Option Error}

theorem handle_of_registered (h : s.registered ns = true) : s.handle ns = s := by
  simp only [handle, setMeta, MetaStore.handle_of_registered h]

theorem Made.metadata (h : Made s ns result) : result.1.metadata = s.metadata := by
  cases h <;> rfl

theorem Loads.metadata (h : Loads s ns result') : result'.1.metadata = s.metadata := by
  cases h <;> rfl

theorem makeNamespace_made (h : s.makeNamespace H ns option ok = result) : Made s ns result := by
  subst h
  simp only [makeNamespace]
  split
  · exact .ok _
  split_ifs
  · exact .failed _
  · have hfailed : Made s ns (s.setFiles ns (s.files ns), none) := .failed _
    rwa [setFiles_files] at hfailed

theorem loadNamespace_loads (h : s.loadNamespace H ns option ok = result') :
    Loads s ns result' := by
  subst h
  simp only [loadNamespace]
  split
  · exact .cached ‹_›
  have hmade : Made s ns (s.makeNamespace H ns option ok) := makeNamespace_made rfl
  generalize s.makeNamespace H ns option ok = made at hmade
  cases hmade with
  | ok contents => exact .made ‹_› contents
  | failed contents => exact .failed contents

theorem forkFiles_made (h : s.forkFiles H fails source target timestamp = result) :
    Made s target result := by
  subst h
  obtain ⟨abandoned, habandoned⟩ := abandonFork_eq s target fails
  simp only [forkFiles]
  split_ifs
  · exact habandoned ▸ .failed abandoned
  · exact habandoned ▸ .failed abandoned
  split
  all_goals
    rename_i hmade
    cases makeNamespace_made hmade
  · rw [setFiles_idem]
    exact .ok _
  · obtain ⟨contents, hcontents⟩ := abandonFork_eq ((s.setFiles target _).setFiles target _) target fails
    rw [hcontents, setFiles_idem, setFiles_idem]
    exact .failed contents

/-! ### Well-formed metastores -/

variable (h : s.metadata.WF)
include h

theorem forkGuarded_wf (config : DatabaseConfig)
    :
    (s.forkGuarded H fails source target config timestamp).1.metadata.WF := by
  have h₁ := (h.handle target).process target (some config) false true
  simp only [forkGuarded]
  split_ifs
  · exact h₁.remove target _
  split
  all_goals
    rename_i hmade
    cases forkFiles_made hmade
  · exact h₁.remove target _
  split
  · exact h₁.remove target _
  · rename_i hflush
    exact Eq.subst (motive := MetaStore.WF) (congrArg Prod.fst hflush)
      (h₁.process target none true (!fails .store))

theorem load_wf (hload : (s.handle ns).loadNamespace H ns option ok = result') :
    result'.1.metadata.WF := by
  rw [(loadNamespace_loads hload).metadata]
  exact h.handle ns

theorem fork_wf (config : DatabaseConfig)
    : (s.fork H fails source target config timestamp).1.metadata.WF := by
  have hentry : (s.getWith target).metadata.WF := by rwa [getWith_metadata]
  simp only [fork]
  split_ifs
  · exact h
  · exact h
  · exact hentry
  · exact hentry
  split
  all_goals
    rename_i hload
    have hload := load_wf hentry hload
  · exact hload
  · split
    · exact hload
    · exact forkGuarded_wf hload config

theorem with_wf (ns : NamespaceName) :
    (s.with_ H fails ns).1.metadata.WF := by
  simp only [with_]
  split_ifs
  · exact h
  split
  all_goals
    rename_i hload
    have hload := load_wf h hload
  · exact hload
  · split <;> exact hload

theorem create_wf (ns : NamespaceName)
    (config : DatabaseConfig) : (s.create H fails ns option config).1.metadata.WF := by
  simp only [create]
  split
  · exact fork_wf h config
  split_ifs
  · exact h
  have hstore := (h.handle ns).process ns (some config) true (!fails .store)
  split
  all_goals
    rename_i heq
    rw [heq] at hstore
  · exact hstore
  · split
    all_goals
      rename_i hload
      exact (loadNamespace_loads hload).metadata ▸ hstore

theorem reset_wf (ns : NamespaceName) :
    (s.reset H fails ns option).1.metadata.WF := by
  have htaken : (((s.getWith ns).takeOut ns (some none)).handle ns).metadata.WF := by
    simp only [handle, setMeta, takeOut_metadata, getWith_metadata]
    exact h.handle ns
  simp only [reset]
  split_ifs
  · exact htaken
  split
  all_goals
    rename_i hmade
    exact (makeNamespace_made hmade).metadata ▸ htaken

theorem destroy_wf (ns : NamespaceName) :
    (s.destroy fails ns).1.metadata.WF := by
  have hremove := h.remove ns (!fails .remove)
  simp only [destroy]
  split
  · exact h
  split
  · exact h
  · exact h
  rename_i m _ hremoved
  rw [hremoved] at hremove
  have htaken : ((s.setMeta m).takeOut ns none).metadata.WF := by
    rw [takeOut_metadata]
    exact hremove
  split_ifs <;> exact htaken

/-- **Every call leaves the metastore well formed.** -/
theorem call_wf (c : Call δ) : (s.call H fails c).1.metadata.WF := by
  cases c with
  | create ns option config => exact create_wf h ns config
  | with_ ns => exact with_wf h ns
  | checkpoint ns =>
    simp only [call, checkpoint]
    split_ifs <;> rwa [getWith_metadata]
  | fork source target config timestamp => exact fork_wf h config
  | reset ns option => exact reset_wf h ns
  | destroy ns => exact destroy_wf h ns
  | evict ns => exact h
  | listen i =>
    simp only [call, listen]
    split_ifs <;> exact h
  | migrate schema pending => exact ⟨h.rows, h.links⟩

omit h

theorem step_eq_some {e : Call δ × (Fault → Bool)} {s' : Store δ} (h : s.step H e = some s') :
    s' = (s.call H e.2 e.1).1 := by
  simp only [step] at h
  split at h
  · cases h
  · rename_i heq
    rw [heq]
    exact (Option.some.inj h).symm

theorem reached_wf {m : MetaStore} (hm : m.WF) {files : NamespaceName → Option δ}
    {calls : List (Call δ × (Fault → Bool))} (h : Run.exec (step H) (started m files) calls = some s) :
    s.metadata.WF :=
  Run.exec_keeps (I := fun s : Store δ => s.metadata.WF)
    (fun _ _ _ hs hstep => step_eq_some hstep ▸ call_wf hs _) hm h

end Store

end SqlAnywhere.Server.Namespaces
