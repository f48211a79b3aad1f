import SqlAnywhere.Lib.Update
import SqlAnywhere.Server.Namespace.Fork

/-!
# Registered namespaces are available

An entry of the cache counts as a loaded namespace, also when it is empty.  Entries are emptied or
inserted empty by `checkpoint`, `fork` and `reset`, before they know whether they will succeed.

* `Sound` — no call leaves an empty entry behind
* `Ready` — then every entry of the cache holds a live instance of a registered namespace
* `available` — and `with` and `create` do as they report
-/

namespace SqlAnywhere.Server.Namespaces

open Function Option Bool

variable {δ : Type} {H : Host δ} {fails : Fault → Bool} {ns : NamespaceName}
  {option : RestoreOption δ} {i : ℕ} {x : Option NamespaceName} {s : Store δ}

namespace Store

/-- The entry of each namespace but `except` holds a live instance of it, and it is registered. -/
structure ReadyBut (except : Option NamespaceName) (s : Store δ) : Prop where
  cached : ∀ ns entry, except ≠ some ns → s.cache ns = some entry →
    ∃ i, entry = some i ∧ s.live i = some ns ∧ s.registered ns = true
  live : ∀ i ns, s.live i = some ns → i < s.next
  evicted : ∀ i ∈ s.evicted, i < s.next ∧ ∀ ns, s.cache ns ≠ some (some i)

/-- The entry of every namespace holds a live instance of it, and it is registered. -/
abbrev Ready (s : Store δ) : Prop := ReadyBut none s

/-- A fork that gets as far as to register its target has no step that fails. -/
structure Smooth (H : Host δ) (s : Store δ) (fails : Fault → Bool) (source target : NamespaceName)
    (config : DatabaseConfig) (timestamp : Option ℕ) : Prop where
  ne : source ≠ target
  steps : fails .setup = false ∧ fails .restore = false ∧ fails .rename = false ∧
    fails .setupTarget = false ∧ fails .store = false
  files : s.files target = none
  backup : timestamp.isSome = true → H.bottomless = true
  schema : ∀ schema, config.sharedSchemaName = some schema →
    s.metadata.pending schema = false ∧ (s.metadata.rows schema).isSome = true

/-- **No empty entry is left behind**: a checkpoint is of a namespace with an entry, no step of a reset
fails, and no step of a fork from a registered namespace onto one that is not loaded. -/
def Sound (H : Host δ) (s : Store δ) (e : Call δ × (Fault → Bool)) : Prop :=
  (∀ ns, e.1 = .checkpoint ns → (s.cache ns).isSome = true) ∧
    (∀ ns option, e.1 = .reset ns option → e.2 .cleanup = false ∧ e.2 .setup = false) ∧
    ∀ source target config timestamp, e.1.forks = some (source, target, config, timestamp) →
      s.hasShutdown = false → s.registered source = true → s.loaded target = none →
        Smooth H s e.2 source target config timestamp

namespace ReadyBut

theorem weaken (h : Ready s) (ns : NamespaceName) : ReadyBut (some ns) s :=
  ⟨fun y entry _ => h.cached y entry nofun, h.live, h.evicted⟩

variable (h : ReadyBut x s) {entry : Option (Option ℕ)} {x' : Option NamespaceName}
include h

/-- Files play no part, and neither does the metastore while it loses no namespace with an entry. -/
theorem frame {s' : Store δ} (hcache : s'.cache = s.cache) (hlive : s'.live = s.live)
    (hevicted : s'.evicted = s.evicted) (hnext : s'.next = s.next)
    (hreg : ∀ ns, s.cache ns ≠ none → s.registered ns = true → s'.registered ns = true) :
    ReadyBut x s' := by
  constructor
  · intro ns entry hx hentry
    rw [hcache] at hentry
    obtain ⟨i, hi, hilive, hins⟩ := h.cached ns entry hx hentry
    exact ⟨i, hi, hlive ▸ hilive, hreg ns (by simp [hentry]) hins⟩
  · intro i ns hi
    rw [hlive] at hi
    exact hnext ▸ h.live i ns hi
  · intro i hi
    rw [hevicted] at hi
    exact ⟨hnext ▸ (h.evicted i hi).1, hcache ▸ (h.evicted i hi).2⟩

theorem spawn (ns : NamespaceName) : ReadyBut x (s.spawn ns) := by
  constructor
  · intro ns' entry hx hentry
    obtain ⟨i, hi, hilive, hns'⟩ := h.cached ns' entry hx hentry
    have hne : i ≠ s.next := Nat.ne_of_lt (h.live i ns' hilive)
    exact ⟨i, hi, (update_of_ne hne _ _).trans hilive, hns'⟩
  · intro i ns' hi
    rcases of_update_eq_some hi with ⟨rfl, -⟩ | ⟨-, hi⟩
    · exact Nat.lt_succ_self _
    · exact Nat.lt_succ_of_lt (h.live i ns' hi)
  · intro i hi
    exact ⟨Nat.lt_succ_of_lt (h.evicted i hi).1, (h.evicted i hi).2⟩

/-- The new entry of a namespace holds a live instance, unless it is left out, and none that was
evicted. -/
theorem setEntry
    (hns : x' ≠ some ns → ∀ e, entry = some e →
      ∃ i, e = some i ∧ s.live i = some ns ∧ s.registered ns = true)
    (hevicted : ∀ i ∈ s.evicted, entry ≠ some (some i))
    (hx : ∀ y, y ≠ ns → x' ≠ some y → x ≠ some y) : ReadyBut x' (s.setEntry ns entry) := by
  refine ⟨fun y e hy he => ?_, h.live, fun j hj => ⟨(h.evicted j hj).1, fun y hy => ?_⟩⟩
  · rcases of_update_eq_some he with ⟨rfl, hnew⟩ | ⟨hne, hold⟩
    · exact hns hy e hnew
    · exact h.cached y e (hx y hne hy) hold
  · rcases of_update_eq_some hy with ⟨-, hy⟩ | ⟨-, hy⟩
    · exact hevicted j hj hy
    · exact (h.evicted j hj).2 y hy

theorem clear
    (hentry : entry.join = none)
    (hx : ∀ y, y ≠ ns → x' ≠ some y → x ≠ some y) (hns : x' ≠ some ns → entry = none) :
    ReadyBut x' (s.setEntry ns entry) :=
  h.setEntry (fun hne _ he => by simp [hns hne] at he) (fun _ _ he => by simp [he] at hentry) hx

theorem kill (hi : ∀ ns, x ≠ some ns → s.cache ns ≠ some (some i)) :
    ReadyBut x (s.kill i) := by
  refine ⟨fun y entry hy hentry => ?_, fun j y hj => ?_, h.evicted⟩
  · obtain ⟨j, hj, hlive, hreg⟩ := h.cached y entry hy hentry
    have hne : j ≠ i := by
      rintro rfl
      exact hi y hy (hj ▸ hentry)
    exact ⟨j, hj, (update_of_ne hne _ _).trans hlive, hreg⟩
  · rcases of_update_eq_some hj with ⟨-, ⟨⟩⟩ | ⟨-, hj⟩
    exact h.live j y hj

omit h

theorem live_of_cache (h : Ready s) (hcache : s.cache ns = some (some i)) : s.live i = some ns := by
  obtain ⟨j, hj, hlive, -⟩ := h.cached ns _ nofun hcache
  cases hj
  exact hlive

/-- No two entries hold one instance. -/
theorem cache_inj {ns' : NamespaceName} (h : Ready s) (hns : s.cache ns = some (some i))
    (hns' : s.cache ns' = some (some i)) : ns' = ns :=
  some.inj ((live_of_cache h hns').symm.trans (live_of_cache h hns))

/-- The instance is taken out of the entry of a namespace, and then the entry is removed or emptied. -/
theorem takeOut (h : Ready s) (ns : NamespaceName)
    (hentry : entry.join = none) (hx : x ≠ some ns → entry = none) :
    ReadyBut x (s.takeOut ns entry) := by
  have hnone : ∀ y : NamespaceName, (none : Option NamespaceName) ≠ some y := fun y => nofun
  simp only [Store.takeOut]
  split
  · rename_i i hloaded
    have hcache : s.cache ns = some (some i) := by
      simpa [loaded, join_eq_some_iff] using hloaded
    have hkilled : ReadyBut (some ns) (s.kill i) :=
      (h.weaken ns).kill fun y hy hother => hy (cache_inj h hcache hother ▸ rfl)
    exact hkilled.clear hentry (fun y hne _ heq => hne (some.inj heq).symm) hx
  · exact h.clear hentry (fun y _ _ => hnone y) hx

end ReadyBut

/-! ### Setting up and loading -/

theorem makeNamespace_isSome (h : (H.opened ns option (s.files ns)).isSome = true) :
    ∃ contents, s.makeNamespace H ns option true =
      ((s.setFiles ns (some contents)).spawn ns, some s.next) := by
  obtain ⟨contents, hcontents⟩ := isSome_iff_exists.1 h
  exact ⟨contents, by simp only [makeNamespace, hcontents]⟩

theorem opened_latest_isSome (ns : NamespaceName) (contents : Option δ) :
    (H.opened ns .latest contents).isSome = true := by
  cases contents with
  | none => exact H.opened_none ns .latest
  | some contents => rw [H.opened_latest, isSome_some]

theorem ReadyBut.made {x x' : Option NamespaceName} (h : ReadyBut x s)
    (hns : s.registered ns = true) (contents : Option δ)
    (hx : ∀ y, y ≠ ns → x' ≠ some y → x ≠ some y) :
    ReadyBut x' ((((s.setFiles ns contents).spawn ns)).setEntry ns (some (some s.next))) := by
  have hopened : ReadyBut x (s.setFiles ns contents) := h.frame rfl rfl rfl rfl fun _ _ => id
  refine (hopened.spawn ns).setEntry (fun _ e he => ?_) (fun i hi he => ?_) hx
  · exact ⟨s.next, (some.inj he).symm, update_self _ _ _, hns⟩
  · exact Nat.ne_of_lt (h.evicted i hi).1 (some.inj (some.inj he)).symm

variable {s' : Store δ} {ok : Bool}

/-- **Loading** a namespace whose entry is not the one being filled keeps the store ready. -/
theorem ReadyBut.load (h : ReadyBut x s) (hns : s.registered ns = true) {e : Option Error}
    (hload : s.loadNamespace H ns option ok = (s', e)) : ReadyBut x s' := by
  cases loadNamespace_loads hload with
  | cached => exact h
  | made _ contents => exact h.made hns contents fun _ _ => id
  | failed => exact h.frame rfl rfl rfl rfl fun _ _ => id

theorem ReadyBut.live_of_le (h : ReadyBut x s) (hle : s.next ≤ i) : s.live i = none := by
  cases hlive : s.live i with
  | none => rfl
  | some ns => exact absurd (h.live i ns hlive) (Nat.not_lt.2 hle)

/-- What a namespace is after it was loaded: its entry holds a live instance, which is new if it had no
entry before. -/
theorem loadNamespace_ok (h : Ready s) (hload : s.loadNamespace H ns option ok = (s', none)) :
    ∃ i, s'.loaded ns = some i ∧ s'.live i = some ns ∧ (s.cache ns = none → s.live i = none) := by
  cases loadNamespace_loads hload with
  | cached hentry =>
    obtain ⟨i, rfl, hlive, -⟩ := h.cached ns _ (by rintro ⟨⟩) hentry
    exact ⟨i, by simp [loaded, hentry], hlive, by simp [hentry]⟩
  | made =>
    exact ⟨s.next, by simp [loaded], update_self _ _ _, fun _ => h.live_of_le (Nat.le_refl _)⟩

/-! ### The calls -/

variable {config : DatabaseConfig} {source target : NamespaceName} {timestamp : Option ℕ}

theorem registered_handle (s : Store δ) (ns : NamespaceName) : (s.handle ns).registered ns = true := by
  simp [handle, registered, setMeta, MetaStore.registered_handle]

theorem ReadyBut.handle (h : ReadyBut x s) (ns : NamespaceName) :
    ReadyBut x (s.handle ns) :=
  h.frame rfl rfl rfl rfl fun ns' _ hns' => by
    simp [Store.handle, registered, setMeta, MetaStore.registered_handle, show
      s.metadata.registered ns' = true from hns']

theorem with_ready (h : Ready s) : Ready (s.with_ H fails ns).1 := by
  have hhandle := h.handle ns
  have hns := registered_handle s ns
  simp only [with_]
  split_ifs
  · exact h
  split
  all_goals rename_i hload
  · exact hhandle.load hns hload
  · split <;> exact hhandle.load hns hload

theorem checkpoint_ready (h : Ready s) (hns : (s.cache ns).isSome = true) :
    Ready (s.checkpoint fails ns).1 := by
  have hsame : s.getWith ns = s := by
    simp only [getWith]
    split
    · rfl
    · rename_i hcache
      simp [hcache] at hns
  simp only [checkpoint, hsame]
  split_ifs <;> exact h

theorem takeOut_getWith (entry : Option (Option ℕ)) :
    (s.getWith ns).takeOut ns entry = s.takeOut ns entry := by
  simp only [takeOut, getWith_loaded]
  cases hcache : s.cache ns with
  | some e => simp only [getWith, hcache]
  | none =>
    simp only [loaded, getWith, hcache, join_none]
    simp only [setEntry, update_idem]

theorem reset_ready (h : Ready s)
    (hcleanup : fails .cleanup = false) (hsetup : fails .setup = false) :
    Ready (s.reset H fails ns option).1 := by
  have htaken : ReadyBut (some ns) ((s.takeOut ns (some none)).handle ns) :=
    (ReadyBut.takeOut h ns rfl fun hne => absurd rfl hne).handle ns
  have hnew : (H.opened ns option ((((s.takeOut ns (some none)).handle ns).setFiles ns none).files
      ns)).isSome = true := by
    rw [setFiles_files_self]
    exact H.opened_none ns option
  obtain ⟨contents, hmade⟩ := makeNamespace_isSome hnew
  simp only [reset, takeOut_getWith, hcleanup, hsetup, Bool.false_eq_true, if_false, Bool.not_false,
    hmade]
  have hempty : ReadyBut (some ns) (((s.takeOut ns (some none)).handle ns).setFiles ns none) :=
    htaken.frame rfl rfl rfl rfl fun _ _ => id
  exact hempty.made (registered_handle _ ns) (some contents)
    fun y hne _ heq => hne (Option.some.inj heq).symm

theorem takeOut_setMeta (m : MetaStore)
    (entry : Option (Option ℕ)) :
    (s.setMeta m).takeOut ns entry = (s.takeOut ns entry).setMeta m := by
  simp only [takeOut, show (s.setMeta m).loaded ns = s.loaded ns from rfl]
  split <;> rfl

theorem takeOut_cache_self (entry : Option (Option ℕ)) :
    (s.takeOut ns entry).cache ns = entry := by
  simp only [takeOut]
  split <;> exact setEntry_cache_self _ _ _

theorem destroy_ready (h : Ready s) : Ready (s.destroy fails ns).1 := by
  have hspec := s.metadata.remove_spec ns (!fails .remove)
  simp only [destroy]
  split
  · exact h
  generalize s.metadata.remove ns (!fails .remove) = removed at hspec ⊢
  cases hspec with
  | failed | absent => exact h
  | removed config links _ _ _ =>
    have htaken : Ready (s.takeOut ns none) := ReadyBut.takeOut h ns rfl fun _ => rfl
    -- the namespace that is no longer registered has no entry any more
    have hdone : Ready ((s.setMeta (s.metadata.without ns links)).takeOut ns none) := by
      rw [takeOut_setMeta]
      refine htaken.frame rfl rfl rfl rfl fun ns' hcache hreg => ?_
      have hne : ns' ≠ ns := by
        rintro rfl
        exact hcache (takeOut_cache_self none)
      rw [registered, takeOut_metadata] at hreg
      simpa [registered, setMeta, MetaStore.without, MetaStore.registered, hne] using hreg
    simp only
    split_ifs
    · exact hdone
    · exact hdone.frame rfl rfl rfl rfl fun _ _ => id

theorem cache_of_not_loaded (h : Ready s) (hns : s.loaded ns = none) :
    s.cache ns = none := by
  cases hcache : s.cache ns with
  | none => rfl
  | some entry =>
    obtain ⟨i, rfl, -⟩ := h.cached ns entry nofun hcache
    simp [loaded, hcache] at hns

/-- Loading what is registered succeeds when nothing fails, and leaves other directories alone. -/
theorem loadNamespace_latest (h : ReadyBut x s) (hx : x ≠ some ns) :
    ∃ s' i, s.loadNamespace H ns .latest true = (s', none) ∧ s'.loaded ns = some i ∧
      ∀ ns', ns' ≠ ns → s'.files ns' = s.files ns' := by
  simp only [loadNamespace]
  split
  · rename_i entry hentry
    obtain ⟨i, rfl, -⟩ := h.cached ns entry hx hentry
    exact ⟨s, i, rfl, by simp [loaded, hentry], fun _ _ => rfl⟩
  · obtain ⟨contents, hmade⟩ := makeNamespace_isSome (s := s) (opened_latest_isSome (H := H) ns _)
    rw [hmade]
    exact ⟨_, s.next, rfl, by simp [loaded], fun ns' hne => setFiles_files_of_ne s hne _⟩

theorem forkFiles_ok (hrestore : fails .restore = false) (hrename : fails .rename = false)
    (hsetup : fails .setupTarget = false) {target : NamespaceName} (hfiles : s.files target = none)
    (source : NamespaceName) (timestamp : Option ℕ) :
    ∃ contents, s.forkFiles H fails source target timestamp =
      ((s.setFiles target (some contents)).spawn target, some s.next) := by
  obtain ⟨contents, hmade⟩ := makeNamespace_isSome (s := s.setFiles target
    ((s.files source).map fun contents => H.copied source contents timestamp))
    (opened_latest_isSome (H := H) target _)
  refine ⟨contents, ?_⟩
  simp only [forkFiles, hrestore, hrename, hsetup, hfiles, Bool.false_eq_true, if_false,
    Option.isSome_none, Bool.or_self, Bool.not_false, hmade, setFiles_idem]
  rfl

/-- A fork without a step that fails, from where its target is registered. -/
theorem forkGuarded_ready (h : ReadyBut (some target) s)
    (hsmooth : Smooth H s fails source target config timestamp) :
    Ready (s.forkGuarded H fails source target config timestamp).1 := by
  obtain ⟨-, hrestore, hrename, hsetup, hstore⟩ := hsmooth.steps
  have hbackup : ¬(timestamp.isSome && !H.bottomless) = true := by
    cases htime : timestamp.isSome with
    | false => simp
    | true => simp [hsmooth.backup htime]
  have hconfig : (s.metadata.setConfig target config).configs target = some config := by simp
  obtain ⟨m, hflush, hconfigs⟩ := MetaStore.process_flush hconfig hsmooth.schema
  have hready : ReadyBut (some target) (s.setMeta (s.metadata.setConfig target config)) :=
    h.frame rfl rfl rfl rfl fun ns _ hns => MetaStore.isSome_update hns
  obtain ⟨contents, hforked⟩ := forkFiles_ok (H := H)
    (s := s.setMeta (s.metadata.setConfig target config)) hrestore hrename hsetup hsmooth.files source
    timestamp
  have hput : Ready ((((s.setMeta (s.metadata.setConfig target config)).setFiles target
      (some contents)).spawn target).setEntry target (some (some s.next))) :=
    hready.made (Option.isSome_iff_exists.2 ⟨config, hconfig⟩) (some contents)
      fun y hne _ heq => hne (Option.some.inj heq).symm
  simp only [forkGuarded, MetaStore.handle_process, if_neg hbackup, hforked, hstore, Bool.not_false]
  have hwritten : ((((s.setMeta (s.metadata.setConfig target config)).setFiles target
      (some contents)).spawn target).setEntry target (some (some s.next))).metadata.process target none
        true true = (m, .ok ()) := hflush
  rw [show (s.setMeta (s.metadata.setConfig target config)).next = s.next from rfl, hwritten]
  refine hput.frame rfl rfl rfl rfl fun ns _ hns => ?_
  have hsame : m.registered ns = (s.metadata.setConfig target config).registered ns := by
    simp only [MetaStore.registered, hconfigs]
  exact hsame.trans hns

variable (h : Ready s)
include h

theorem fork_ready
    (hsmooth : s.hasShutdown = false → s.registered source = true → s.loaded target = none →
      Smooth H s fails source target config timestamp) :
    Ready (s.fork H fails source target config timestamp).1 := by
  simp only [fork]
  split
  · exact h
  rename_i hrunning
  split
  · exact h
  rename_i hsource
  have hsource : s.registered source = true := by simpa using hsource
  cases hloaded : s.loaded target with
  | some i =>
    have hsome : (s.loaded target).isSome = true := isSome_iff_exists.2 ⟨i, hloaded⟩
    rw [getWith_of_loaded hsome, if_pos hsome]
    exact h
  | none =>
    have hsmooth := hsmooth (eq_false_iff.2 hrunning) hsource hloaded
    have hentry : ReadyBut (some target) (s.getWith target) := by
      simp only [getWith, cache_of_not_loaded h hloaded]
      exact h.clear rfl (fun _ _ _ => (by rintro ⟨⟩)) fun hne => absurd rfl hne
    have hregistered : (s.getWith target).registered source = true := by
      rw [registered, getWith_metadata]
      exact hsource
    have hne : some target ≠ some source := fun heq => hsmooth.ne (some.inj heq).symm
    obtain ⟨s₁, i, hload, hi, hfiles⟩ := loadNamespace_latest (H := H) hentry hne
    have hclean := hfiles target hsmooth.ne.symm
    have hmeta := (loadNamespace_loads hload).metadata.trans (getWith_metadata s target)
    rw [getWith_files, hsmooth.files] at hclean
    rw [getWith_loaded, hloaded, Option.isSome_none, if_neg Bool.false_ne_true, if_neg hsmooth.ne,
      handle_of_registered hregistered, hsmooth.steps.1, Bool.not_false, hload]
    simp only [hi]
    refine forkGuarded_ready (hentry.load hregistered hload)
      ⟨hsmooth.ne, hsmooth.steps, hclean, hsmooth.backup, ?_⟩
    rw [hmeta]
    exact hsmooth.schema

theorem ReadyBut.stored (ns : NamespaceName) (config : DatabaseConfig) (ok : Bool) :
    Ready (s.setMeta ((s.metadata.handle ns).process ns (some config) true ok).1) ∧
      (s.setMeta ((s.metadata.handle ns).process ns (some config) true ok).1).registered ns = true := by
  have hstored := (s.metadata.handle ns).registered_process ns config ok
  constructor
  · refine h.frame rfl rfl rfl rfl fun ns' _ hns' => (hstored ns').trans ?_
    rw [MetaStore.registered_handle, show s.metadata.registered ns' = true from hns']
    simp
  · exact (hstored ns).trans (by simp)

theorem create_ready
    (hsmooth : ∀ schema, config.sharedSchemaName = some schema → s.hasShutdown = false →
      s.registered schema = true → s.loaded ns = none → Smooth H s fails schema ns config none) :
    Ready (s.create H fails ns option config).1 := by
  simp only [create]
  split
  · rename_i schema hschema
    exact fork_ready h (hsmooth schema hschema)
  · split
    · exact h
    obtain ⟨hready, hns⟩ := h.stored ns config (!fails .store)
    split
    all_goals
      rename_i hstored
      rw [hstored] at hready hns
    · exact hready
    · split
      all_goals
        rename_i hload
        exact hready.load hns hload

theorem evict_ready : Ready (s.evict ns) := by
  have hcleared : Ready (s.setEntry ns none) := h.clear rfl (fun _ _ _ => nofun) fun _ => rfl
  refine ⟨hcleared.cached, hcleared.live, fun i hi => ?_⟩
  rcases List.mem_append.1 hi with hi | hi
  · have hcache : s.cache ns = some (some i) := by
      simpa [loaded, join_eq_some_iff] using hi
    refine ⟨h.live i ns (h.live_of_cache hcache), fun ns' hns' => ?_⟩
    rcases of_update_eq_some hns' with ⟨-, ⟨⟩⟩ | ⟨hne, hother⟩
    exact hne (h.cache_inj hcache hother)
  · exact hcleared.evicted i hi

theorem listen_ready : Ready (s.listen i) := by
  simp only [listen]
  split_ifs with hi
  · have hkilled := h.kill fun ns _ => (h.evicted i hi).2 ns
    exact ⟨hkilled.cached, hkilled.live, fun j hj => hkilled.evicted j (List.mem_of_mem_erase hj)⟩
  · exact h

/-- **A sound call keeps the store ready.** -/
theorem call_ready {e : Call δ × (Fault → Bool)} (hsound : Sound H s e) :
    Ready (s.call H e.2 e.1).1 := by
  obtain ⟨c, fails⟩ := e
  obtain ⟨hcheckpoint, hreset, hfork⟩ := hsound
  cases c with
  | create ns option config =>
    refine create_ready h fun schema hschema => hfork schema ns config none ?_
    simp only [Call.forks, hschema, map_some]
  | with_ ns => exact with_ready h
  | checkpoint ns => exact checkpoint_ready h (hcheckpoint ns rfl)
  | fork source target config timestamp => exact fork_ready h (hfork source target config timestamp rfl)
  | reset ns option => exact reset_ready h (hreset ns option rfl).1 (hreset ns option rfl).2
  | destroy ns => exact destroy_ready h
  | evict ns => exact evict_ready h
  | listen i => exact listen_ready h
  | migrate schema pending => exact h.frame rfl rfl rfl rfl fun _ _ => id

omit h

/-! ### What callers see -/

/-- **What `with` and `create` answer.**  On a registered namespace, `with` runs on a live instance of
it or reports that it could not be set up.  When `create` succeeds, the entry of the namespace holds a
live instance, and one that was set up by the call if the namespace was not registered. -/
structure Answers (H : Host δ) (s : Store δ) : Prop where
  with_ : ∀ fails ns, s.registered ns = true →
    (∃ i, (s.with_ H fails ns).2 = .ran i ∧ (s.with_ H fails ns).1.live i = some ns) ∨
      (s.with_ H fails ns).2 = .failed (.setup ns)
  create : ∀ fails ns option config, (s.create H fails ns option config).2 = .ok →
    ∃ i, (s.create H fails ns option config).1.loaded ns = some i ∧
      (s.create H fails ns option config).1.live i = some ns ∧
      (s.registered ns = false → s.live i = none)

theorem with_answers (h : Ready s) (hns : s.registered ns = true) :
    (∃ i, (s.with_ H fails ns).2 = .ran i ∧ (s.with_ H fails ns).1.live i = some ns) ∨
      (s.with_ H fails ns).2 = .failed (.setup ns) := by
  simp only [with_, hns, Bool.not_true, Bool.and_false, Bool.false_and, Bool.false_eq_true, if_false,
    handle_of_registered hns]
  split
  · rename_i hload
    cases loadNamespace_loads hload
    exact .inr rfl
  · rename_i s₁ hload
    obtain ⟨i, hloaded, hlive, -⟩ := loadNamespace_ok h hload
    simp only [hloaded]
    exact .inl ⟨i, rfl, hlive⟩

theorem forkGuarded_ok (h : s.forkGuarded H fails source target config timestamp = (s', .ok)) :
    s'.loaded target = some s.next ∧ s'.live s.next = some target := by
  simp only [forkGuarded] at h
  split at h
  · cases h
  split at h
  · cases h
  rename_i hmade
  cases forkFiles_made hmade
  split at h <;> cases h
  exact ⟨by simp [loaded, setMeta], update_self _ _ _⟩

theorem Loads.next_le {result : Store δ × Option Error} (h : Loads s ns result) :
    s.next ≤ result.1.next := by
  cases h with
  | cached | failed => exact Nat.le_refl _
  | made => exact Nat.le_succ _

theorem getWith_next : (s.getWith ns).next = s.next := by
  simp only [getWith]
  split <;> rfl

theorem fork_ok (h : s.fork H fails source target config timestamp = (s', .ok)) :
    ∃ i, s'.loaded target = some i ∧ s'.live i = some target ∧ s.next ≤ i := by
  simp only [fork] at h
  split at h
  · cases h
  split at h
  · cases h
  split at h
  · cases h
  split at h
  · cases h
  split at h
  · cases h
  rename_i s₁ hload
  split at h
  · cases h
  obtain ⟨hloaded, hlive⟩ := forkGuarded_ok h
  have hnext := (loadNamespace_loads hload).next_le
  exact ⟨_, hloaded, hlive, Nat.le_trans (Nat.le_of_eq getWith_next.symm) hnext⟩

theorem create_answers (h : Ready s) (hok : s.create H fails ns option config = (s', .ok)) :
    ∃ i, s'.loaded ns = some i ∧ s'.live i = some ns ∧
      (s.registered ns = false → s.live i = none) := by
  simp only [create] at hok
  split at hok
  · obtain ⟨i, hloaded, hlive, hnext⟩ := fork_ok hok
    exact ⟨i, hloaded, hlive, fun _ => h.live_of_le hnext⟩
  · split at hok
    · cases hok
    obtain ⟨hready, -⟩ := h.stored ns config (!fails .store)
    split at hok
    · cases hok
    rename_i hstored
    rw [hstored] at hready
    split at hok <;> cases hok
    rename_i hload
    obtain ⟨i, hloaded, hlive, hfresh⟩ := loadNamespace_ok hready hload
    -- a namespace that is not registered has no entry
    refine ⟨i, hloaded, hlive, fun hns => hfresh ?_⟩
    cases hcache : s.cache ns with
    | none => exact hcache
    | some entry =>
      obtain ⟨_, _, _, hreg⟩ := h.cached ns entry (by rintro ⟨⟩) hcache
      exact absurd hreg (eq_false_iff.1 hns)

/-- **Registered namespaces are available**, in every run in which no empty entry is left behind. -/
theorem available (H : Host δ) (m : MetaStore) (files : NamespaceName → Option δ)
    (calls : List (Call δ × (Fault → Bool))) (s : Store δ)
    (hsound : Run.Along (step H) (Sound H) (started m files) calls)
    (hreached : Run.exec (step H) (started m files) calls = some s) : Answers H s := by
  have hstarted : Ready (started m files) :=
    ⟨fun _ _ _ => nofun, fun _ _ => nofun, fun _ h => absurd h List.not_mem_nil⟩
  have hready : Ready s := Run.exec_invariant
    (fun s e s' hs hok hstep => step_eq_some hstep ▸ call_ready hs hok) hstarted hsound hreached
  exact ⟨fun _ _ hns => with_answers hready hns, fun _ _ _ _ hok => create_answers hready (Prod.ext rfl hok)⟩

/-! ### Two namespaces -/

/-- A namespace is loaded, checkpointed and reset. -/
theorem available_after_reset :
    ∃ s, Run.exec (step plainHost) (started twoNamespaces twoFiles)
        [(.with_ "archive", fun _ => false), (.checkpoint "archive", fun _ => false),
          (.reset "archive" .latest, fun _ => false)] = some s ∧
      s.registered "archive" = true ∧ Answers plainHost s := by
  refine ⟨_, rfl, by decide, available plainHost twoNamespaces twoFiles
    [(.with_ "archive", fun _ => false), (.checkpoint "archive", fun _ => false),
      (.reset "archive" .latest, fun _ => false)] _ ?_ rfl⟩
  simp [Run.Along, Sound, step, call, Call.forks]
  -- the checkpoint is of a namespace that is loaded
  rintro _ ⟨⟩
  decide

/-- **A namespace is not found any more** after a checkpoint of it while it was not loaded. -/
theorem checkpointed_away :
    ∃ s, Run.exec (step plainHost) (started twoNamespaces twoFiles)
        [(.checkpoint "archive", fun _ => false)] = some s ∧
      s.registered "archive" = true ∧
      (s.with_ plainHost (fun _ => false) "archive").2 =
        .failed (.namespaceDoesntExist "archive") ∧ ¬Answers plainHost s := by
  refine ⟨_, rfl, by decide, by decide, fun hanswers => ?_⟩
  have hwith := hanswers.with_ (fun _ => false) "archive" (by decide)
  rcases hwith with ⟨i, hran, -⟩ | hfailed
  · cases hran
  · cases hfailed

end Store

end SqlAnywhere.Server.Namespaces
