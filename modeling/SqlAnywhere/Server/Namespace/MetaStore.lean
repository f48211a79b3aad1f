import SqlAnywhere.Server.Auth

/-!
# The metastore

Which namespaces are registered, with which configuration: a map in memory, in front of a database
with a row for each namespace and the links of namespaces to their shared schemas.

* `MetaStore.handle`, `MetaStore.process`, `MetaStore.remove` — the operations of the source
* `MetaStore.WF` — a row is one of a registered namespace, and links join namespaces with rows
* `MetaStore.remove_spec` — a namespace is removed, or nothing changes
-/

namespace SqlAnywhere.Server.Namespaces

open Function List

/-- What the namespace store reads of a `DatabaseConfig`. -/
structure DatabaseConfig where
  sharedSchemaName : Option NamespaceName
  isSharedSchema : Bool
  /-- in unix seconds -/
  expiresAt : Option ℕ
  deriving DecidableEq

/-- `DatabaseConfig::default` -/
def DatabaseConfig.initial : DatabaseConfig := ⟨none, false, none⟩

inductive MetaError
  | hasLinkedDbs (ns : NamespaceName)
  | pendingMigrationOnSchema (schema : NamespaceName)
  /-- the database of the metastore fails, or refuses the change for a foreign key -/
  | sql
  deriving DecidableEq

/-- The metastore of a primary. -/
structure MetaStore where
  /-- the map in memory -/
  configs : NamespaceName → Option DatabaseConfig
  /-- `namespace_configs` -/
  rows : NamespaceName → Option DatabaseConfig
  /-- `shared_schema_links`, each with the schema first -/
  links : List (NamespaceName × NamespaceName)
  /-- the schemas with migration jobs that are not finished -/
  pending : NamespaceName → Bool

namespace MetaStore

/-- `MetaStore::exists` -/
def registered (m : MetaStore) (ns : NamespaceName) : Bool := (m.configs ns).isSome

def setConfig (m : MetaStore) (ns : NamespaceName) (config : DatabaseConfig) : MetaStore :=
  { m with configs := Function.update m.configs ns (some config) }

/-- A look-up of the handle of a namespace, which registers the name if it is not. -/
def handle (m : MetaStore) (ns : NamespaceName) : MetaStore :=
  m.setConfig ns ((m.configs ns).getD .initial)

/-- Whether the expiry of a namespace is at or before `now`. -/
def isExpired (m : MetaStore) (now : ℕ) (ns : NamespaceName) : Bool :=
  (m.configs ns).any fun config => config.expiresAt.any fun expiry => expiry ≤ now

/-- `try_process`: the row and the link of a namespace are written, in one transaction.  A namespace
that has no shared schema any more keeps its link. -/
def tryProcess (m : MetaStore) (ns : NamespaceName) (config : DatabaseConfig) (ok : Bool) :
    Except MetaError MetaStore :=
  let rows := Function.update m.rows ns (some config)
  if !ok then .error .sql
  else
    match config.sharedSchemaName with
    | none => .ok { m with rows := rows }
    | some schema =>
      if m.pending schema then .error (.pendingMigrationOnSchema schema)
      -- the link refers to the row of the schema
      else if (rows schema).isNone then .error .sql
      else
        let links := m.links.filter (fun l => l.2 ≠ ns) ++ [(schema, ns)]
        .ok { m with rows := rows, links := links }

/-- `process`: with a configuration, the map is changed even when it cannot be written. -/
def process (m : MetaStore) (ns : NamespaceName) (config : Option DatabaseConfig) (flush ok : Bool) :
    MetaStore × Except MetaError Unit :=
  match config with
  | some config =>
    if flush then
      match m.tryProcess ns config ok with
      | .ok m' => (m'.setConfig ns config, .ok ())
      | .error e => (m.setConfig ns config, .error e)
    else (m.setConfig ns config, .ok ())
  | none =>
    match flush, m.configs ns with
    | true, some config =>
      match m.tryProcess ns config ok with
      | .ok m' => (m', .ok ())
      | .error e => (m, .error e)
    | _, _ => (m, .ok ())

/-- The end of `remove`: the row is deleted, unless a link refers to it. -/
def deleteRow (m : MetaStore) (ns : NamespaceName) (config : DatabaseConfig)
    (links : List (NamespaceName × NamespaceName)) :
    MetaStore × Except MetaError (Option DatabaseConfig) :=
  if (m.rows ns).isSome && links.any (fun l => l.1 = ns || l.2 = ns) then (m, .error .sql)
  else
    ({ m with
        configs := Function.update m.configs ns none
        rows := Function.update m.rows ns none
        links := links }, .ok (some config))

def remove (m : MetaStore) (ns : NamespaceName) (ok : Bool) :
    MetaStore × Except MetaError (Option DatabaseConfig) :=
  match m.configs ns with
  | none => (m, .ok none)
  | some config =>
    if !ok then (m, .error .sql)
    else if config.isSharedSchema && m.links.any (fun l => l.1 = ns) then
      (m, .error (.hasLinkedDbs ns))
    else
      match config.sharedSchemaName with
      | some schema =>
        if m.pending schema then (m, .error (.pendingMigrationOnSchema schema))
        else m.deleteRow ns config (m.links.filter fun l => l ≠ (schema, ns))
      | none => m.deleteRow ns config m.links

/-! ### What the operations do -/

variable {m : MetaStore} {ns : NamespaceName} {config : DatabaseConfig} {ok : Bool} {m' : MetaStore}

@[simp] theorem setConfig_configs :
    (m.setConfig ns config).configs = update m.configs ns (some config) := rfl

@[simp] theorem setConfig_rows : (m.setConfig ns config).rows = m.rows := rfl

theorem handle_process :
    ((m.handle ns).process ns (some config) false true).1 = m.setConfig ns config := by
  simp only [process, handle, setConfig, update_idem, Bool.false_eq_true, if_false]

theorem handle_of_registered (h : m.registered ns = true) : m.handle ns = m := by
  obtain ⟨config, hconfig⟩ := Option.isSome_iff_exists.1 h
  have hsame : update m.configs ns (some config) = m.configs := by
    rw [← hconfig, update_eq_self]
  simp only [handle, setConfig, hconfig, Option.getD_some, hsame]

theorem registered_handle (m : MetaStore) (ns ns' : NamespaceName) :
    (m.handle ns).registered ns' = (ns' = ns || m.registered ns') := by
  simp only [registered, handle, setConfig_configs]
  by_cases h : ns' = ns <;> simp [h]

theorem tryProcess_eq_ok (h : m.tryProcess ns config ok = .ok m') :
    m'.configs = m.configs ∧ m'.rows = update m.rows ns (some config) ∧
      ((config.sharedSchemaName = none ∧ m'.links = m.links) ∨
      ∃ schema, config.sharedSchemaName = some schema ∧ (m'.rows schema).isSome = true ∧
        m'.links = m.links.filter (fun l => l.2 ≠ ns) ++ [(schema, ns)]) := by
  simp only [tryProcess] at h
  split_ifs at h
  split at h
  · rename_i hname
    obtain rfl := Except.ok.inj h
    exact ⟨rfl, rfl, .inl ⟨hname, rfl⟩⟩
  · rename_i schema hname
    split_ifs at h with _ hrow
    obtain rfl := Except.ok.inj h
    exact ⟨rfl, rfl, .inr ⟨schema, hname, Option.isSome_iff_ne_none.2 (by simpa using hrow), rfl⟩⟩

/-- The outcomes of writing what the map has of a namespace. -/
inductive Flushes (m : MetaStore) (ns : NamespaceName) : MetaStore × Except MetaError Unit → Prop
  | same (r : Except MetaError Unit) : Flushes m ns (m, r)
  | written {config : DatabaseConfig} {ok : Bool} {m' : MetaStore}
      (hconfig : m.configs ns = some config) (hnew : m.tryProcess ns config ok = .ok m') :
      Flushes m ns (m', .ok ())

theorem process_flushes (m : MetaStore) (ns : NamespaceName) (flush ok : Bool) :
    Flushes m ns (m.process ns none flush ok) := by
  simp only [process]
  split
  · rename_i hconfig
    split
    · rename_i hnew
      exact .written hconfig hnew
    · exact .same _
  · exact .same _

theorem tryProcess_setConfig :
    (m.setConfig ns config).tryProcess ns config ok =
      (m.tryProcess ns config ok).map fun m' => m'.setConfig ns config := by
  simp only [tryProcess]
  cases ok with
  | false => rfl
  | true =>
    cases config.sharedSchemaName with
    | none => rfl
    | some schema =>
      simp only [apply_ite (Except.map _)]
      rfl

/-- A configuration is put into the map, and what the map has is then written. -/
theorem process_some
    (flush ok : Bool) :
    m.process ns (some config) flush ok = (m.setConfig ns config).process ns none flush ok := by
  simp only [process, setConfig_configs, update_self]
  cases flush with
  | false => rfl
  | true =>
    simp only [tryProcess_setConfig]
    cases m.tryProcess ns config ok <;> rfl

theorem flush_configs (m : MetaStore) (ns : NamespaceName) (flush ok : Bool) :
    (m.process ns none flush ok).1.configs = m.configs := by
  have hflush := m.process_flushes ns flush ok
  generalize m.process ns none flush ok = r at hflush ⊢
  cases hflush with
  | same => rfl
  | written _ hnew => exact (tryProcess_eq_ok hnew).1

theorem process_configs (m : MetaStore) (ns : NamespaceName) (config : DatabaseConfig)
    (flush ok : Bool) :
    (m.process ns (some config) flush ok).1.configs =
      update m.configs ns (some config) := by
  rw [process_some, flush_configs, setConfig_configs]

/-- Storing a configuration registers the namespace, whether it can be written or not. -/
theorem registered_process (m : MetaStore) (ns : NamespaceName) (config : DatabaseConfig) (ok : Bool)
    (ns' : NamespaceName) :
    (m.process ns (some config) true ok).1.registered ns' = (ns' = ns || m.registered ns') := by
  simp only [registered, process_configs]
  by_cases h : ns' = ns <;> simp [h]

/-- A configuration can be written when the database works, and its schema has a row and no migrations
to be done. -/
theorem tryProcess_succeeds (hok : ok = true)
    (hschema : ∀ schema, config.sharedSchemaName = some schema →
      m.pending schema = false ∧ (schema = ns ∨ (m.rows schema).isSome = true)) :
    ∃ m', m.tryProcess ns config ok = .ok m' := by
  subst hok
  simp only [tryProcess, Bool.not_true, Bool.false_eq_true, if_false]
  cases hname : config.sharedSchemaName with
  | none => exact ⟨_, rfl⟩
  | some schema =>
    obtain ⟨hpending, hrow⟩ := hschema schema hname
    have hrow' : (update m.rows ns (some config) schema).isNone = false := by
      by_cases heq : schema = ns
      · simp [heq]
      · rw [update_of_ne heq, Option.isNone_eq_false_iff]
        exact hrow.resolve_left heq
    simp only [hpending, hrow', Bool.false_eq_true, if_false]
    exact ⟨_, rfl⟩

/-- The configuration of a registered namespace is written, unless the database fails, its schema has
migrations to be done or has no row. -/
theorem process_flush (hconfig : m.configs ns = some config)
    (hschema : ∀ schema, config.sharedSchemaName = some schema →
      m.pending schema = false ∧ (m.rows schema).isSome = true) :
    ∃ m', m.process ns none true true = (m', .ok ()) ∧ m'.configs = m.configs := by
  have hwritten : ∃ m', m.tryProcess ns config true = .ok m' :=
    tryProcess_succeeds rfl fun schema hname =>
      ⟨(hschema schema hname).1, .inr (hschema schema hname).2⟩
  obtain ⟨m', hm'⟩ := hwritten
  refine ⟨m', ?_, (tryProcess_eq_ok hm').1⟩
  simp only [process, hconfig, hm']

/-- The metastore without a namespace. -/
def without (m : MetaStore) (ns : NamespaceName) (links : List (NamespaceName × NamespaceName)) :
    MetaStore :=
  { m with
    configs := Function.update m.configs ns none
    rows := Function.update m.rows ns none
    links := links }

/-- The outcomes of `remove`. -/
inductive Removes (m : MetaStore) (ns : NamespaceName) :
    MetaStore × Except MetaError (Option DatabaseConfig) → Prop
  | failed (e : MetaError) (h : m.registered ns = true) : Removes m ns (m, .error e)
  | absent (h : m.configs ns = none) : Removes m ns (m, .ok none)
  | removed (config : DatabaseConfig) (links : List (NamespaceName × NamespaceName))
      (h : m.configs ns = some config) (hsub : ∀ l ∈ links, l ∈ m.links)
      (hfree : (m.rows ns).isSome = true → ∀ l ∈ links, l.1 ≠ ns ∧ l.2 ≠ ns) :
      Removes m ns (m.without ns links, .ok (some config))

/-- At most the links of a namespace are taken away. -/
structure Spares (m : MetaStore) (ns : NamespaceName) (links : List (NamespaceName × NamespaceName)) :
    Prop where
  sub : links.Sublist m.links
  keep : ∀ l ∈ m.links, l.2 ≠ ns → l ∈ links

theorem Spares.refl : m.Spares ns m.links := ⟨List.Sublist.refl _, fun _ hl _ => hl⟩

theorem deleteRow_spec (hconfig : m.configs ns = some config)
    {links : List (NamespaceName × NamespaceName)} (hlinks : m.Spares ns links) :
    Removes m ns (m.deleteRow ns config links) ∧
      m.Spares ns (m.deleteRow ns config links).1.links := by
  simp only [deleteRow]
  split_ifs with hlinked
  · exact ⟨.failed .sql (Option.isSome_iff_exists.2 ⟨config, hconfig⟩), .refl⟩
  refine ⟨.removed config links hconfig hlinks.sub.subset fun hrow l hl => ?_, hlinks⟩
  rw [hrow, Bool.true_and, any_eq_true] at hlinked
  simp only [Bool.or_eq_true, decide_eq_true_eq, not_exists, not_and, not_or] at hlinked
  exact hlinked l hl

theorem remove_spares (m : MetaStore) (ns : NamespaceName) (ok : Bool) :
    Removes m ns (m.remove ns ok) ∧ m.Spares ns (m.remove ns ok).1.links := by
  simp only [remove]
  split
  case h_1 h => exact ⟨.absent h, .refl⟩
  case h_2 config h =>
    have hregistered : m.registered ns = true := Option.isSome_iff_exists.2 ⟨config, h⟩
    split_ifs
    · exact ⟨.failed _ hregistered, .refl⟩
    · exact ⟨.failed _ hregistered, .refl⟩
    split
    · split_ifs
      · exact ⟨.failed _ hregistered, .refl⟩
      · refine deleteRow_spec h ⟨filter_sublist, fun l hl hne => mem_filter.2 ⟨hl, ?_⟩⟩
        simpa using fun heq => hne (congrArg Prod.snd heq)
    · exact deleteRow_spec h .refl

/-- **A namespace is removed, or nothing changes.** -/
theorem remove_spec (m : MetaStore) (ns : NamespaceName) (ok : Bool) :
    Removes m ns (m.remove ns ok) :=
  (m.remove_spares ns ok).1

/-- A namespace that at most its own link joins to another is removed, unless the database fails or its
schema has migrations to be done. -/
theorem remove_of_unlinked (hconfig : m.configs ns = some config) (hlinks : ∀ l ∈ m.links, l.1 ≠ ns)
    (hown : ∀ l ∈ m.links, l.2 = ns → config.sharedSchemaName = some l.1)
    (hpending : ∀ schema, config.sharedSchemaName = some schema → m.pending schema = false) :
    ∃ links, m.remove ns true = (m.without ns links, .ok (some config)) := by
  have hdelete : ∀ links : List (NamespaceName × NamespaceName),
      (∀ l ∈ links, l ∈ m.links ∧ l.2 ≠ ns) →
      m.deleteRow ns config links = (m.without ns links, .ok (some config)) := by
    intro links hsub
    have hfree : links.any (fun l => l.1 = ns || l.2 = ns) = false :=
      any_eq_false.2 fun l hl => by simp [hlinks l (hsub l hl).1, (hsub l hl).2]
    simp only [deleteRow, hfree, Bool.and_false, Bool.false_eq_true, if_false]
    rfl
  have hunlinked : m.links.any (fun l => l.1 = ns) = false :=
    any_eq_false.2 fun l hl => by simp [hlinks l hl]
  simp only [remove, hconfig, hunlinked, Bool.not_true, Bool.and_false, Bool.false_eq_true, if_false]
  cases hschema : config.sharedSchemaName with
  | none =>
    refine ⟨_, hdelete m.links fun l hl => ⟨hl, fun heq => ?_⟩⟩
    cases hschema.symm.trans (hown l hl heq)
  | some schema =>
    simp only [hpending schema hschema, Bool.false_eq_true, if_false]
    refine ⟨_, hdelete _ fun l hl => ?_⟩
    obtain ⟨hl, hne⟩ := mem_filter.1 hl
    refine ⟨hl, fun heq => ?_⟩
    obtain rfl := Option.some.inj (hschema.symm.trans (hown l hl heq))
    simp [← heq] at hne

/-! ### Well-formed metastores -/

/-- Rows are those of registered namespaces, and links join namespaces with rows. -/
structure WF (m : MetaStore) : Prop where
  rows : ∀ ns, (m.rows ns).isSome = true → m.registered ns = true
  links : ∀ l ∈ m.links, (m.rows l.1).isSome = true ∧ (m.rows l.2).isSome = true

theorem isSome_update {α : Type} {f : NamespaceName → Option α} {ns ns' : NamespaceName} {a : α}
    (h : (f ns').isSome = true) : (update f ns (some a) ns').isSome = true := by
  by_cases heq : ns' = ns
  · simp [heq]
  · rwa [update_of_ne heq]

namespace WF

variable (h : m.WF)
include h

theorem unlinked_of_no_row (hrow : (m.rows ns).isSome = false) :
    ∀ l ∈ m.links, l.1 ≠ ns ∧ l.2 ≠ ns := by
  intro l hl
  constructor
  · rintro rfl
    exact Bool.eq_false_iff.1 hrow (h.links l hl).1
  · rintro rfl
    exact Bool.eq_false_iff.1 hrow (h.links l hl).2

theorem unlinked (hns : m.registered ns = false) :
    ∀ l ∈ m.links, l.1 ≠ ns ∧ l.2 ≠ ns :=
  h.unlinked_of_no_row
    (Bool.eq_false_iff.2 fun hrow => Bool.eq_false_iff.1 hns (h.rows ns hrow))

theorem setConfig (ns : NamespaceName) (config : DatabaseConfig) :
    (m.setConfig ns config).WF :=
  ⟨fun ns' hrow => isSome_update (h.rows ns' hrow), h.links⟩

theorem handle (ns : NamespaceName) : (m.handle ns).WF :=
  h.setConfig ns _

theorem tryProcess
    (hnew : m.tryProcess ns config ok = .ok m') (hreg : m.registered ns = true) : m'.WF := by
  obtain ⟨hconfigs, hrows, hlinks⟩ := tryProcess_eq_ok hnew
  have hold : ∀ l ∈ m.links, (m'.rows l.1).isSome = true ∧ (m'.rows l.2).isSome = true := by
    intro l hl
    rw [hrows]
    exact ⟨isSome_update (h.links l hl).1, isSome_update (h.links l hl).2⟩
  constructor
  · intro ns' hrow
    rw [registered, hconfigs]
    rw [hrows] at hrow
    by_cases heq : ns' = ns
    · rw [heq]
      exact hreg
    · rw [update_of_ne heq] at hrow
      exact h.rows ns' hrow
  · rcases hlinks with ⟨-, hlinks⟩ | ⟨schema, -, hschema, hlinks⟩
    · rwa [hlinks]
    rw [hlinks, forall_mem_append, forall_mem_singleton]
    refine ⟨fun l hl => hold l (mem_filter.1 hl).1, hschema, ?_⟩
    rw [hrows, update_self]
    rfl

theorem process (ns : NamespaceName) (config : Option DatabaseConfig) (flush ok : Bool) :
    (m.process ns config flush ok).1.WF := by
  have hflush : ∀ {m : MetaStore}, m.WF → (m.process ns none flush ok).1.WF := by
    intro m h
    have hflush := m.process_flushes ns flush ok
    generalize m.process ns none flush ok = r at hflush ⊢
    cases hflush with
    | same => exact h
    | written hconfig hnew => exact h.tryProcess hnew (Option.isSome_iff_exists.2 ⟨_, hconfig⟩)
  cases config with
  | none => exact hflush h
  | some config =>
    rw [process_some]
    exact hflush (h.setConfig ns config)

theorem remove (ns : NamespaceName) (ok : Bool) : (m.remove ns ok).1.WF := by
  have hspec := remove_spec m ns ok
  generalize m.remove ns ok = r at hspec ⊢
  cases hspec with
  | failed | absent => exact h
  | removed config links hconfig hsub hfree =>
    have hother : ∀ l ∈ links, l.1 ≠ ns ∧ l.2 ≠ ns := by
      intro l hl
      cases hrow : (m.rows ns).isSome with
      | true => exact hfree hrow l hl
      | false => exact h.unlinked_of_no_row hrow l (hsub l hl)
    constructor
    · intro ns' hrow
      by_cases heq : ns' = ns
      · simp [without, heq] at hrow
      · simp only [without, registered, update_of_ne heq] at hrow ⊢
        exact h.rows ns' hrow
    · intro l hl
      obtain ⟨hfst, hsnd⟩ := hother l hl
      simp only [without, update_of_ne hfst, update_of_ne hsnd]
      exact h.links l (hsub l hl)

end WF

end MetaStore

end SqlAnywhere.Server.Namespaces
