import SqlAnywhere.Server.Namespace.Calls

/-!
# The calls of the namespace store, step by step

Any number of calls of the store at once, each of which takes one step at a time: it looks something
up in the metastore, takes a lock, sets an instance up, or shuts one down.  Between any two steps of
a call others may take theirs, and the cache may drop an entry, whose listener runs later.

* `Task` — where a call stands
* `Task.step` — its next step
* `Sys.step` — a step of any call or of the cache

An instance is a value that is moved: it belongs to a cache entry, to a call or to a listener.
-/

namespace SqlAnywhere.Server.Namespaces

variable {δ : Type}

/-- Who has an instance; entries and calls have numbers. -/
inductive Owner
  | entry (e : ℕ)
  | call (t : ℕ)
  /-- the eviction listener of an entry that has left the cache -/
  | listener (e : ℕ)
  deriving DecidableEq

structure Instance where
  name : NamespaceName
  owner : Owner
  deriving DecidableEq

/-- A `NamespaceEntry`: a lock around an instance, or nothing. -/
structure Entry where
  name : NamespaceName
  content : Option ℕ
  /-- the call that has the write lock -/
  writer : Option ℕ
  deriving DecidableEq

/-- What the calls share. -/
structure Shared (δ : Type) where
  metadata : MetaStore
  /-- in unix seconds -/
  now : ℕ
  hasShutdown : Bool
  cache : NamespaceName → Option ℕ
  entries : ℕ → Entry
  nextEntry : ℕ
  /-- the call that sets a namespace up for `Cache::try_get_with` -/
  loading : NamespaceName → Option ℕ
  /-- the entries that have left the cache and whose listener has not returned, with the instance
  that the listener has taken out and shuts down -/
  leaving : ℕ → Option (Option ℕ)
  /-- the instances that are set up and neither shut down nor destroyed -/
  live : ℕ → Option Instance
  nextId : ℕ
  /-- the directories of namespaces -/
  files : NamespaceName → Option δ
  /-- whether a `create` or a `fork` has registered the namespace, and no `destroy` has removed it
  since; no step depends on it -/
  created : NamespaceName → Bool

namespace Shared

def setMeta (s : Shared δ) (m : MetaStore) : Shared δ := { s with metadata := m }

def handle (s : Shared δ) (ns : NamespaceName) : Shared δ := s.setMeta (s.metadata.handle ns)

def setCreated (s : Shared δ) (ns : NamespaceName) (b : Bool) : Shared δ :=
  { s with created := Function.update s.created ns b }

def setFiles (s : Shared δ) (ns : NamespaceName) (contents : Option δ) : Shared δ :=
  { s with files := Function.update s.files ns contents }

def setLoading (s : Shared δ) (ns : NamespaceName) (t : Option ℕ) : Shared δ :=
  { s with loading := Function.update s.loading ns t }

def setLeaving (s : Shared δ) (e : ℕ) (taken : Option (Option ℕ)) : Shared δ :=
  { s with leaving := Function.update s.leaving e taken }

def setEntry (s : Shared δ) (e : ℕ) (entry : Entry) : Shared δ :=
  { s with entries := Function.update s.entries e entry }

def setWriter (s : Shared δ) (e : ℕ) (t : Option ℕ) : Shared δ :=
  s.setEntry e { s.entries e with writer := t }

def setContent (s : Shared δ) (e : ℕ) (i : Option ℕ) : Shared δ :=
  s.setEntry e { s.entries e with content := i }

/-- An instance is set up, moved, shut down or destroyed. -/
def setLive (s : Shared δ) (i : ℕ) (x : Option Instance) : Shared δ :=
  { s with live := Function.update s.live i x }

/-- A new instance, of the call that sets it up. -/
def spawn (s : Shared δ) (ns : NamespaceName) (t : ℕ) : Shared δ :=
  { s.setLive s.nextId (some ⟨ns, .call t⟩) with nextId := s.nextId + 1 }

/-- The instance of an entry is moved out. -/
def takeOut (s : Shared δ) (e i : ℕ) (owner : Owner) : Shared δ :=
  (s.setContent e none).setLive i (some ⟨(s.entries e).name, owner⟩)

/-- An instance is moved into an entry. -/
def putIn (s : Shared δ) (e i : ℕ) : Shared δ :=
  (s.setContent e (some i)).setLive i (some ⟨(s.entries e).name, .entry e⟩)

/-- The entry of a namespace, if any, leaves the cache, and its listener is to run. -/
def drop (s : Shared δ) (ns : NamespaceName) : Shared δ :=
  match s.cache ns with
  | some e => { s.setLeaving e (some none) with cache := Function.update s.cache ns none }
  | none => s

/-- A new entry, without an instance, in the cache. -/
def addEntry (s : Shared δ) (ns : NamespaceName) : Shared δ :=
  { s.setEntry s.nextEntry ⟨ns, none, none⟩ with
    cache := Function.update s.cache ns (some s.nextEntry)
    nextEntry := s.nextEntry + 1 }

/-- `Cache::get_with` with an empty entry as the default, and the entry. -/
def getWith (s : Shared δ) (ns : NamespaceName) : Shared δ × ℕ :=
  match s.cache ns with
  | some e => (s, e)
  | none => (s.addEntry ns, s.nextEntry)

/-- What a set-up that fails leaves: a directory that was made for it is removed, but not that of a
schema. -/
def leaveDir (H : Host δ) (s : Shared δ) (ns : NamespaceName) : Shared δ :=
  if (s.files ns).isNone && (s.metadata.configs ns).any (fun config => config.isSharedSchema) then
    s.setFiles ns (some H.partly)
  else s

/-- `ForkTask::fork` has failed: the directory of the target is removed, if that succeeds. -/
def abandonFork (fails : Fault → Bool) (s : Shared δ) (target : NamespaceName) : Shared δ :=
  if fails .removeDir then s else s.setFiles target none

/-- The guard of a fork is dropped: the target is taken out of the metastore, if that succeeds. -/
def dropGuard (fails : Fault → Bool) (s : Shared δ) (target : NamespaceName) : Shared δ :=
  match s.metadata.remove target (!fails .remove) with
  | (m, .ok (some _)) => (s.setMeta m).setCreated target false
  | _ => s

/-- The entries that are in the cache. -/
def cached (s : Shared δ) (e : ℕ) : Bool := s.cache (s.entries e).name = some e

def invalidateAll (s : Shared δ) : Shared δ :=
  { s with
    cache := fun _ => none
    leaving := fun e => if s.cached e then some none else s.leaving e }

end Shared

/-! ### Where a call stands -/

/-- What goes on once `load_namespace` has the entry. -/
inductive After (δ : Type)
  | with_
  /-- `fresh`: the name was not registered when `create` looked -/
  | create (option : RestoreOption δ) (fresh : Bool)
  /-- a fork of the loaded namespace that has the lock of the entry `toEntry` of its target -/
  | fork (target : NamespaceName) (config : DatabaseConfig) (timestamp : Option ℕ) (toEntry : ℕ)

/-- The next step of a call. -/
inductive Task (δ : Type)
  /-- the existence check of `with` -/
  | withCheck (ns : NamespaceName)
  | withHandle (ns : NamespaceName)
  | withRead (ns : NamespaceName) (e : ℕ)
  /-- `load_namespace`: find the entry, or set the namespace up and insert it -/
  | load (ns : NamespaceName) (option : RestoreOption δ) (after : After δ)
  | setup (ns : NamespaceName) (option : RestoreOption δ) (after : After δ)
  | insert (ns : NamespaceName) (i : ℕ) (after : After δ)
  | createCheck (ns : NamespaceName) (option : RestoreOption δ) (config : DatabaseConfig)
  | createHandle (ns : NamespaceName) (option : RestoreOption δ) (config : DatabaseConfig)
      (fresh : Bool)
  | createStore (ns : NamespaceName) (option : RestoreOption δ) (config : DatabaseConfig)
      (fresh : Bool)
  /-- `create` has returned -/
  | created (ns : NamespaceName) (option : RestoreOption δ) (fresh : Bool)
  | forkCheck (source target : NamespaceName) (config : DatabaseConfig) (timestamp : Option ℕ)
  | forkEntry (source target : NamespaceName) (config : DatabaseConfig) (timestamp : Option ℕ)
  | forkLock (source target : NamespaceName) (config : DatabaseConfig) (timestamp : Option ℕ)
      (toEntry : ℕ)
  | forkHandle (source target : NamespaceName) (config : DatabaseConfig) (timestamp : Option ℕ)
      (toEntry : ℕ)
  | forkSource (source target : NamespaceName) (config : DatabaseConfig) (timestamp : Option ℕ)
      (toEntry : ℕ) (e : ℕ)
  | forkRegister (source target : NamespaceName) (config : DatabaseConfig) (timestamp : Option ℕ)
      (toEntry : ℕ)
  | forkStore (source target : NamespaceName) (config : DatabaseConfig) (timestamp : Option ℕ)
      (toEntry : ℕ)
  | forkCopy (source target : NamespaceName) (timestamp : Option ℕ) (toEntry : ℕ)
  | forkReplace (target : NamespaceName) (toEntry i : ℕ)
  | forkFlush (target : NamespaceName) (toEntry : ℕ)
  /-- the fork fails, and its guard is dropped -/
  | forkGuard (target : NamespaceName) (toEntry : ℕ) (e : Error)
  | resetEntry (ns : NamespaceName) (option : RestoreOption δ)
  | resetLock (ns : NamespaceName) (e : ℕ) (option : RestoreOption δ)
  | resetDestroy (ns : NamespaceName) (e i : ℕ) (option : RestoreOption δ)
  | resetHandle (ns : NamespaceName) (e : ℕ) (option : RestoreOption δ)
  | resetCleanup (ns : NamespaceName) (e : ℕ) (option : RestoreOption δ)
  | resetSetup (ns : NamespaceName) (e : ℕ) (option : RestoreOption δ)
  | resetReplace (ns : NamespaceName) (e i : ℕ)
  /-- `destroy`, with the names that are still to be destroyed when it is called by a sweep -/
  | destroyStart (ns : NamespaceName) (rest : Option (List NamespaceName))
  | destroyRemove (ns : NamespaceName) (rest : Option (List NamespaceName))
  | destroyEntry (ns : NamespaceName) (rest : Option (List NamespaceName))
  | destroyTake (ns : NamespaceName) (e : ℕ) (rest : Option (List NamespaceName))
  | destroyInstance (ns : NamespaceName) (e i : ℕ) (rest : Option (List NamespaceName))
  | destroyCleanup (ns : NamespaceName) (rest : Option (List NamespaceName))
  /-- `destroy` has returned -/
  | destroyed (ns : NamespaceName) (outcome : Outcome) (rest : Option (List NamespaceName))
  /-- `destroy_expired` lists the namespaces that have expired -/
  | sweep
  | shutdownStart
  /-- `shutdown` goes through the entries of the cache -/
  | shutdownIter
  | shutdownLoop (entries taken : List ℕ)
  | shutdownJoin (taken : List ℕ)
  | shutdownInvalidate
  | shutdownPending
  /-- `shutdown` has returned -/
  | shutDown (outcome : Outcome)
  /-- the configuration of a namespace is looked up to authorise an `ATTACH` -/
  | attach (ns : NamespaceName)
  /-- a changed configuration of a namespace is stored -/
  | update (ns : NamespaceName) (config : DatabaseConfig)
  | done (outcome : Outcome)

def After.loaded (ns : NamespaceName) (e : ℕ) : After δ → Task δ
  | .with_ => .withRead ns e
  | .create option fresh => .created ns option fresh
  | .fork target config timestamp toEntry => .forkSource ns target config timestamp toEntry e

/-- The load has failed: a fork gives up the lock of its target. -/
def After.release (s : Shared δ) : After δ → Shared δ
  | .fork _ _ _ toEntry => s.setWriter toEntry none
  | _ => s

/-- The calls, at their first step. -/
def Task.isCall : Task δ → Bool
  | .withCheck _ | .createCheck _ _ _ | .forkCheck _ _ _ _ | .resetEntry _ _ | .destroyStart _ none
  | .sweep | .shutdownStart | .attach _ | .update _ _ => true
  | _ => false

/-! ### The steps -/

variable (H : Host δ) (fails : Fault → Bool) {t : ℕ}

/-- The next step of the call `t`, unless it has to wait. -/
def Task.step (s : Shared δ) (t : ℕ) : Task δ → Option (Shared δ × Task δ)
  | .withCheck ns =>
    if ns ≠ H.defaultName && !s.metadata.registered ns && !H.allowLazyCreation then
      some (s, .done (.failed (.namespaceDoesntExist ns)))
    else some (s, .withHandle ns)
  | .withHandle ns => some (s.handle ns, .load ns .latest .with_)
  | .withRead ns e =>
    if (s.entries e).writer.isSome then none
    else
      match (s.entries e).content with
      | some i => some (s, .done (.ran i))
      -- the namespace was taken out of the entry
      | none => some (s, .done (.failed (.namespaceDoesntExist ns)))
  | .load ns option after =>
    match s.cache ns with
    | some e => some (s, after.loaded ns e)
    | none =>
      match s.loading ns with
      | none => some (s.setLoading ns (some t), .setup ns option after)
      -- the call waits for the one that sets the namespace up, and fails if that fails
      | some _ => if fails .setup then some (after.release s, .done (.failed (.setup ns))) else none
  | .setup ns option after =>
    match H.opened ns option (s.files ns), fails .setup with
    | some contents, false =>
      some ((s.setFiles ns (some contents)).spawn ns t, .insert ns s.nextId after)
    | _, _ =>
      some (after.release ((s.leaveDir H ns).setLoading ns none), .done (.failed (.setup ns)))
  | .insert ns i after =>
    some ((((s.drop ns).addEntry ns).putIn s.nextEntry i).setLoading ns none,
      after.loaded ns s.nextEntry)
  | .createCheck ns option config =>
    match config.sharedSchemaName with
    | some schema => some (s, .forkCheck schema ns config none)
    | none =>
      if !(H.allowLazyCreation || ns = H.defaultName) && s.metadata.registered ns then
        some (s, .done (.failed (.namespaceAlreadyExist ns)))
      else some (s, .createHandle ns option config (!s.metadata.registered ns))
  | .createHandle ns option config fresh =>
    some ((s.handle ns).setCreated ns true, .createStore ns option config fresh)
  | .createStore ns option config fresh =>
    match s.metadata.process ns (some config) true (!fails .store) with
    | (m, .error e) => some ((s.setMeta m).setCreated ns true, .done (.failed (.metaStore e)))
    | (m, .ok ()) =>
      some ((s.setMeta m).setCreated ns true, .load ns option (.create option fresh))
  | .created _ _ _ => none
  | .forkCheck source target config timestamp =>
    if s.hasShutdown then some (s, .done (.failed .namespaceStoreShutdown))
    else if !s.metadata.registered source then
      some (s, .done (.failed (.namespaceDoesntExist source)))
    else some (s, .forkEntry source target config timestamp)
  | .forkEntry source target config timestamp =>
    some ((s.getWith target).1, .forkLock source target config timestamp (s.getWith target).2)
  | .forkLock source target config timestamp toEntry =>
    if (s.entries toEntry).writer.isSome then none
    else if (s.entries toEntry).content.isSome then
      some (s, .done (.failed (.namespaceAlreadyExist target)))
    else some (s.setWriter toEntry (some t), .forkHandle source target config timestamp toEntry)
  | .forkHandle source target config timestamp toEntry =>
    some (s.handle source, .load source .latest (.fork target config timestamp toEntry))
  | .forkSource source target config timestamp toEntry e =>
    if (s.entries e).writer.isSome then none
    else if (s.entries e).content.isNone then
      some (s.setWriter toEntry none, .done (.failed (.namespaceDoesntExist source)))
    -- the read lock of the source, which only makes others wait, is left out
    else some (s, .forkRegister source target config timestamp toEntry)
  | .forkRegister source target config timestamp toEntry =>
    some ((s.handle target).setCreated target true,
      .forkStore source target config timestamp toEntry)
  | .forkStore source target config timestamp toEntry =>
    some ((s.setMeta (s.metadata.process target (some config) false true).1).setCreated target true,
      .forkCopy source target timestamp toEntry)
  | .forkCopy source target timestamp toEntry =>
    if timestamp.isSome && !H.bottomless then some (s, .forkGuard target toEntry .fork)
    -- a directory cannot be moved over one that is not empty
    else if fails .restore || fails .rename || (s.files target).isSome then
      some (s.abandonFork fails target, .forkGuard target toEntry .fork)
    else
      let contents := (s.files source).map fun contents => H.copied source contents timestamp
      match H.opened target .latest contents, fails .setupTarget with
      | some contents, false =>
        some ((s.setFiles target (some contents)).spawn target t,
          .forkReplace target toEntry s.nextId)
      | _, _ =>
        some ((s.setFiles target contents).abandonFork fails target,
          .forkGuard target toEntry .fork)
  | .forkReplace target toEntry i => some (s.putIn toEntry i, .forkFlush target toEntry)
  | .forkFlush target toEntry =>
    match s.metadata.process target none true (!fails .store) with
    | (_, .error e) => some (s, .forkGuard target toEntry (.metaStore e))
    | (m, .ok ()) => some ((s.setMeta m).setWriter toEntry none, .done .ok)
  | .forkGuard target toEntry e =>
    some ((s.dropGuard fails target).setWriter toEntry none, .done (.failed e))
  | .resetEntry ns option => some ((s.getWith ns).1, .resetLock ns (s.getWith ns).2 option)
  | .resetLock ns e option =>
    if (s.entries e).writer.isSome then none
    else
      match (s.entries e).content with
      | some i => some ((s.setWriter e (some t)).takeOut e i (.call t), .resetDestroy ns e i option)
      | none => some (s.setWriter e (some t), .resetHandle ns e option)
  | .resetDestroy ns e i option => some (s.setLive i none, .resetHandle ns e option)
  | .resetHandle ns e option => some (s.handle ns, .resetCleanup ns e option)
  | .resetCleanup ns e option =>
    if fails .cleanup then some (s.setWriter e none, .done (.failed .cleanup))
    else some (s.setFiles ns none, .resetSetup ns e option)
  | .resetSetup ns e option =>
    match H.opened ns option (s.files ns), fails .setup with
    | some contents, false =>
      some ((s.setFiles ns (some contents)).spawn ns t, .resetReplace ns e s.nextId)
    | _, _ => some ((s.leaveDir H ns).setWriter e none, .done (.failed (.setup ns)))
  | .resetReplace _ e i => some ((s.putIn e i).setWriter e none, .done .ok)
  | .destroyStart ns rest =>
    if s.hasShutdown then some (s, .destroyed ns (.failed .namespaceStoreShutdown) rest)
    else some (s, .destroyRemove ns rest)
  | .destroyRemove ns rest =>
    match s.metadata.remove ns (!fails .remove) with
    | (_, .error e) => some (s, .destroyed ns (.failed (.metaStore e)) rest)
    | (_, .ok none) => some (s, .destroyed ns (.failed (.namespaceDoesntExist ns)) rest)
    | (m, .ok (some _)) => some ((s.setMeta m).setCreated ns false, .destroyEntry ns rest)
  | .destroyEntry ns rest =>
    match s.cache ns with
    | some e => some (s.drop ns, .destroyTake ns e rest)
    | none => some (s, .destroyCleanup ns rest)
  | .destroyTake ns e rest =>
    if (s.entries e).writer.isSome then none
    else
      match (s.entries e).content with
      | some i =>
        some ((s.setWriter e (some t)).takeOut e i (.call t), .destroyInstance ns e i rest)
      | none => some (s, .destroyCleanup ns rest)
  | .destroyInstance ns e i rest =>
    some ((s.setLive i none).setWriter e none, .destroyCleanup ns rest)
  | .destroyCleanup ns rest =>
    if fails .cleanup then some (s, .destroyed ns (.failed .cleanup) rest)
    else some (s.setFiles ns none, .destroyed ns .ok rest)
  | .destroyed _ _ rest =>
    match rest with
    | some (ns :: rest) => some (s, .destroyStart ns (some rest))
    | _ => none
  | .sweep => none
  | .shutdownStart => some ({ s with hasShutdown := true }, .shutdownIter)
  | .shutdownIter => none
  | .shutdownLoop entries taken =>
    match entries with
    | [] => some (s, .shutdownJoin taken)
    | e :: entries =>
      if (s.entries e).writer.isSome then none
      else
        match (s.entries e).content with
        | some i => some (s.takeOut e i (.call t), .shutdownLoop entries (i :: taken))
        | none => some (s, .shutdownLoop entries taken)
  | .shutdownJoin taken =>
    match taken with
    | [] => some (s, .shutdownInvalidate)
    | i :: taken =>
      if fails .checkpoint then some (s, .shutDown (.failed .checkpoint))
      else some (s.setLive i none, .shutdownJoin taken)
  | .shutdownInvalidate => some (s.invalidateAll, .shutdownPending)
  -- `run_pending_tasks` waits for the listeners
  | .shutdownPending =>
    if (List.range s.nextEntry).all (fun e => (s.leaving e).isNone) then some (s, .shutDown .ok)
    else none
  | .shutDown _ => none
  | .attach ns => some (s.handle ns, .done .ok)
  | .update ns config =>
    match s.metadata.process ns (some config) true (!fails .store) with
    | (m, .error e) => some (s.setMeta m, .done (.failed (.metaStore e)))
    | (m, .ok ()) => some (s.setMeta m, .done .ok)
  | .done _ => none

/-! ### The system -/

/-- The store with the calls that have begun. -/
structure Sys (δ : Type) where
  shared : Shared δ
  tasks : List (Task δ)

inductive Action (δ : Type)
  /-- a call begins -/
  | start (task : Task δ)
  | step (t : ℕ) (fails : Fault → Bool)
  /-- a sweep lists these names as expired -/
  | expired (t : ℕ) (names : List NamespaceName)
  /-- `shutdown` finds these entries in the cache -/
  | iter (t : ℕ) (entries : List ℕ)
  /-- the cache drops an entry -/
  | evict (ns : NamespaceName)
  /-- the listener of an entry takes its instance out, or finds none -/
  | listen (e : ℕ)
  /-- the listener has shut the instance down -/
  | listened (e : ℕ)
  /-- time passes -/
  | tick
  /-- migration jobs on a schema are registered, or finished -/
  | migrate (schema : NamespaceName) (pending : Bool)

namespace Shared

def listen (s : Shared δ) (e : ℕ) : Option (Shared δ) :=
  match s.leaving e, (s.entries e).writer with
  | some none, none =>
    match (s.entries e).content with
    | some i => some ((s.takeOut e i (.listener e)).setLeaving e (some (some i)))
    | none => some (s.setLeaving e none)
  | _, _ => none

def listened (s : Shared δ) (e : ℕ) : Option (Shared δ) :=
  match s.leaving e with
  | some (some i) => some ((s.setLive i none).setLeaving e none)
  | _ => none

/-- A list of entries has all that are in the cache. -/
def lists (s : Shared δ) (entries : List ℕ) : Bool :=
  (List.range s.nextEntry).all fun e => !s.cached e || entries.contains e

end Shared

/-- The first names of a sweep. -/
def sweepFrom : List NamespaceName → Task δ
  | [] => .done .ok
  | ns :: rest => .destroyStart ns (some rest)

def Sys.step (s : Sys δ) : Action δ → Option (Sys δ)
  | .start task => if task.isCall then some { s with tasks := s.tasks ++ [task] } else none
  | .step t fails =>
    (s.tasks[t]?).bind fun task =>
      (task.step H fails s.shared t).map fun r => ⟨r.1, s.tasks.set t r.2⟩
  | .expired t names =>
    match s.tasks[t]? with
    | some .sweep =>
      if names.all (s.shared.metadata.isExpired s.shared.now) then
        some { s with tasks := s.tasks.set t (sweepFrom names) }
      else none
    | _ => none
  | .iter t entries =>
    match s.tasks[t]? with
    | some .shutdownIter =>
      if s.shared.lists entries then
        some { s with tasks := s.tasks.set t (.shutdownLoop entries []) }
      else none
    | _ => none
  | .evict ns => some { s with shared := s.shared.drop ns }
  | .listen e => (s.shared.listen e).map fun shared => { s with shared := shared }
  | .listened e => (s.shared.listened e).map fun shared => { s with shared := shared }
  | .tick => some { s with shared := { s.shared with now := s.shared.now + 1 } }
  | .migrate schema pending =>
    some { s with
      shared := s.shared.setMeta { s.shared.metadata with
        pending := Function.update s.shared.metadata.pending schema pending } }

/-- The system of a server that was just started. -/
def Sys.started (m : MetaStore) (files : NamespaceName → Option δ) (now : ℕ) : Sys δ where
  shared :=
    { metadata := m
      now := now
      hasShutdown := false
      cache := fun _ => none
      entries := fun _ => ⟨"", none, none⟩
      nextEntry := 0
      loading := fun _ => none
      leaving := fun _ => none
      live := fun _ => none
      nextId := 0
      files := files
      created := m.registered }
  tasks := []

/-! ### What a step does to the registrations -/

/-- What the existence of a namespace depends on, and its history. -/
def Shared.registry (s : Shared δ) : MetaStore × (NamespaceName → Bool) := (s.metadata, s.created)

namespace Shared

variable {H fails} (s : Shared δ) (ns : NamespaceName)

@[simp] theorem setFiles_registry (contents : Option δ) :
    (s.setFiles ns contents).registry = s.registry := rfl

@[simp] theorem setLoading_registry (t : Option ℕ) :
    (s.setLoading ns t).registry = s.registry := rfl

@[simp] theorem setWriter_registry (e : ℕ) (t : Option ℕ) :
    (s.setWriter e t).registry = s.registry := rfl

@[simp] theorem putIn_registry (e i : ℕ) : (s.putIn e i).registry = s.registry := rfl

@[simp] theorem drop_registry : (s.drop ns).registry = s.registry := by
  simp only [drop]
  split <;> rfl

@[simp] theorem addEntry_registry : (s.addEntry ns).registry = s.registry := rfl

@[simp] theorem getWith_registry : (s.getWith ns).1.registry = s.registry := by
  simp only [getWith]
  split <;> rfl

@[simp] theorem leaveDir_registry : (s.leaveDir H ns).registry = s.registry := by
  simp only [leaveDir]
  split <;> rfl

@[simp] theorem abandonFork_registry : (s.abandonFork fails ns).registry = s.registry := by
  simp only [abandonFork]
  split <;> rfl

@[simp] theorem release_registry (after : After δ) : (after.release s).registry = s.registry := by
  cases after <;> rfl

end Shared

namespace Task

variable {H fails} {s s' : Shared δ}

/-- The look-ups of a handle by calls that do not create the namespace. -/
def lookUp : Task δ → Option NamespaceName
  | .withHandle ns | .attach ns | .resetHandle ns _ _ => some ns
  | .forkHandle source _ _ _ _ => some source
  | _ => none

/-- The steps that create a namespace: its handle is looked up, or its configuration is stored. -/
def makes : Task δ → Option NamespaceName
  | .createHandle ns _ _ _ | .createStore ns _ _ _ => some ns
  | .forkRegister _ target _ _ _ | .forkStore _ target _ _ _ => some target
  | _ => none

/-- The steps that remove a namespace from the metastore. -/
def removes : Task δ → Option NamespaceName
  | .destroyRemove ns _ | .forkGuard ns _ _ => some ns
  | _ => none

/-- The steps that change the configuration of a namespace. -/
def updates : Task δ → Option NamespaceName
  | .update ns _ => some ns
  | _ => none

/-- What a step does to the registrations. -/
inductive Registers (s s' : Shared δ) (task : Task δ) : Prop
  | same (hconfigs : s'.metadata.configs = s.metadata.configs) (hcreated : s'.created = s.created)
  | found (ns : NamespaceName) (h : task.lookUp = some ns)
      (hmeta : s'.metadata = s.metadata.handle ns) (hcreated : s'.created = s.created)
  | made (ns : NamespaceName) (h : task.makes = some ns) (config : DatabaseConfig)
      (hconfigs : s'.metadata.configs = Function.update s.metadata.configs ns (some config))
      (hcreated : s'.created = Function.update s.created ns true)
  | updated (ns : NamespaceName) (h : task.updates = some ns) (config : DatabaseConfig)
      (hconfigs : s'.metadata.configs = Function.update s.metadata.configs ns (some config))
      (hcreated : s'.created = s.created)
  | removed (ns : NamespaceName) (h : task.removes = some ns)
      (hconfigs : s'.metadata.configs = Function.update s.metadata.configs ns none)
      (hcreated : s'.created = Function.update s.created ns false)

theorem Registers.of_registry {task : Task δ} (h : s'.registry = s.registry) :
    Registers s s' task :=
  .same (congrArg MetaStore.configs (congrArg Prod.fst h)) (congrArg Prod.snd h)

/-- The guard of a fork removes its target, or nothing. -/
theorem registers_forkGuard (s : Shared δ) (target : NamespaceName) (toEntry : ℕ) (e : Error) :
    Registers s ((s.dropGuard fails target).setWriter toEntry none)
      (.forkGuard target toEntry e) := by
  have hspec := s.metadata.remove_spec target (!fails .remove)
  simp only [Shared.dropGuard]
  generalize s.metadata.remove target (!fails .remove) = made at hspec ⊢
  cases hspec with
  | failed | absent => exact .same rfl rfl
  | removed config links h hsub hfree => exact .removed target rfl rfl rfl

theorem registers_destroyRemove {ns : NamespaceName}
    {rest : Option (List NamespaceName)} {task' : Task δ}
    (h : (destroyRemove ns rest : Task δ).step H fails s t = some (s', task')) :
    Registers s s' (.destroyRemove ns rest : Task δ) := by
  have hspec := s.metadata.remove_spec ns (!fails .remove)
  simp only [step] at h
  generalize s.metadata.remove ns (!fails .remove) = made at h hspec
  cases hspec with
  | failed | absent => cases h; exact .same rfl rfl
  | removed config links hns hsub hfree => cases h; exact .removed ns rfl rfl rfl

/-- **What a step does to the registrations.** -/
theorem step_registers {task task' : Task δ}
    (h : task.step H fails s t = some (s', task')) : Registers s s' task := by
  cases task with
  | withHandle ns | attach ns | resetHandle ns => cases h; exact .found ns rfl rfl rfl
  | forkHandle source target config timestamp toEntry => cases h; exact .found source rfl rfl rfl
  | createHandle ns option config fresh => cases h; exact .made ns rfl _ rfl rfl
  | createStore ns option config fresh =>
    have hconfigs := s.metadata.process_configs ns config true (!fails .store)
    simp only [step] at h
    generalize s.metadata.process ns (some config) true (!fails .store) = made at hconfigs h
    obtain ⟨m, e | ⟨⟩⟩ := made <;> cases h <;> exact .made ns rfl config hconfigs rfl
  | update ns config =>
    have hconfigs := s.metadata.process_configs ns config true (!fails .store)
    simp only [step] at h
    generalize s.metadata.process ns (some config) true (!fails .store) = made at hconfigs h
    obtain ⟨m, e | ⟨⟩⟩ := made <;> cases h <;> exact .updated ns rfl config hconfigs rfl
  | forkRegister source target config timestamp toEntry => cases h; exact .made target rfl _ rfl rfl
  | forkStore source target config timestamp toEntry =>
    cases h
    exact .made target rfl config (s.metadata.process_configs target config false true) rfl
  | forkFlush target toEntry =>
    have hconfigs := s.metadata.flush_configs target true (!fails .store)
    simp only [step] at h
    split at h
    · cases h
      exact .same rfl rfl
    · rename_i m hm
      cases h
      exact .same (by rw [← hconfigs, hm]; rfl) rfl
  | forkGuard target toEntry e =>
    cases h
    exact registers_forkGuard s target toEntry e
  | destroyRemove ns rest => exact registers_destroyRemove h
  | _ =>
    -- the other steps leave the metastore alone
    refine .of_registry ?_
    simp only [step] at h
    repeat' split at h
    all_goals cases h
    all_goals first
      | rfl
      | simp

end Task

/-! ### A step of the system -/

variable {H} {s s' : Sys δ}

theorem getElem?_set_cases {α : Type} {l : List α} {t t' : ℕ} {a b : α}
    (h : (l.set t a)[t']? = some b) : t' = t ∧ b = a ∨ t' ≠ t ∧ l[t']? = some b := by
  rw [List.getElem?_set] at h
  split_ifs at h with ht hlt
  · exact .inl ⟨ht.symm, (Option.some.inj h).symm⟩
  · exact .inr ⟨fun heq => ht heq.symm, h⟩

theorem getElem?_append_cases {α : Type} {l : List α} {a b : α}
    (h : (l ++ [a])[t]? = some b) : l[t]? = some b ∨ b = a := by
  by_cases ht : t < l.length
  · rw [List.getElem?_append_left ht] at h
    exact .inl h
  · rw [List.getElem?_append_right (Nat.le_of_not_lt ht)] at h
    exact .inr (List.mem_singleton.1 (List.mem_of_getElem? h))

theorem Sys.step_task {fails : Fault → Bool} (h : s.step H (.step t fails) = some s') :
    ∃ task shared task', s.tasks[t]? = some task ∧
      task.step H fails s.shared t = some (shared, task') ∧ s' = ⟨shared, s.tasks.set t task'⟩ := by
  obtain ⟨task, htask, h⟩ := Option.bind_eq_some_iff.1 h
  obtain ⟨⟨shared, task'⟩, hstep, rfl⟩ := Option.map_eq_some_iff.1 h
  exact ⟨task, shared, task', htask, hstep, rfl⟩

/-- What is not a step of a call leaves the registrations alone. -/
theorem Sys.step_env {a : Action δ} (h : s.step H a = some s') (ha : ∀ t fails, a ≠ .step t fails) :
    s'.shared.metadata.configs = s.shared.metadata.configs ∧
      s'.shared.created = s.shared.created := by
  have hregistry : ∀ {shared : Shared δ}, shared.registry = s.shared.registry →
      shared.metadata.configs = s.shared.metadata.configs ∧ shared.created = s.shared.created :=
    fun h => ⟨congrArg MetaStore.configs (congrArg Prod.fst h), congrArg Prod.snd h⟩
  cases a with
  | start task =>
    simp only [step] at h
    split_ifs at h
    cases h
    exact ⟨rfl, rfl⟩
  | step t fails => exact absurd rfl (ha t fails)
  | expired | iter =>
    simp only [step] at h
    repeat' split at h
    all_goals cases h
    exact ⟨rfl, rfl⟩
  | evict ns => cases h; exact hregistry (s.shared.drop_registry ns)
  | listen e =>
    obtain ⟨shared, hlisten, rfl⟩ := Option.map_eq_some_iff.1 h
    simp only [Shared.listen] at hlisten
    repeat' split at hlisten
    all_goals cases hlisten
    · exact ⟨rfl, rfl⟩
    · exact ⟨rfl, rfl⟩
  | listened e =>
    obtain ⟨shared, hlistened, rfl⟩ := Option.map_eq_some_iff.1 h
    simp only [Shared.listened] at hlistened
    split at hlistened
    all_goals cases hlistened
    exact ⟨rfl, rfl⟩
  | tick | migrate => cases h; exact ⟨rfl, rfl⟩

end SqlAnywhere.Server.Namespaces
