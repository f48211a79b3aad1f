import SqlAnywhere.Lib.Run
import SqlAnywhere.Lib.Update
import SqlAnywhere.Server.Namespace.MetaStore

/-!
# What the metastore keeps

The configurations of namespaces are kept in a map, and in a database that the map is restored from
when the server starts.  The links of namespaces to their shared schemas are only in the database.

* `MetaStore.perform` — the operations on the metastore and their outcomes
* `MetaStore.Consistent` — links, map and database agree
* `MetaStore.Safe` — the configurations that are stored
* `MetaStore.durable` — then what is stored survives a restart
-/

namespace SqlAnywhere.Server.Namespaces

open List
open Function (update_self update_of_ne update_eq_self)

/-- The operations on a metastore. -/
inductive MetaOp
  | handle (ns : NamespaceName)
  /-- `store_and_maybe_flush`; `current`: the handle was taken after the last removal of `ns` -/
  | store (ns : NamespaceName) (config : DatabaseConfig) (flush current : Bool)
  | flush (ns : NamespaceName)
  | remove (ns : NamespaceName)
  /-- migration jobs on a schema are registered, or finished -/
  | migrate (schema : NamespaceName) (pending : Bool)
  /-- the server stops and starts again -/
  | restart

/-- The namespace that an operation stores or removes. -/
def MetaOp.changes : MetaOp → Option NamespaceName
  | .store ns _ _ _ | .flush ns | .remove ns => some ns
  | _ => none

inductive UpdateError
  | metaStore (e : MetaError)
  /-- `MetaStoreUpdateFailure`: what the handle watches is gone -/
  | updateFailure

namespace MetaStore

def restore (m : MetaStore) : MetaStore := { m with configs := m.rows }

/-- `MetaStoreHandle::store_and_maybe_flush`: it waits for the change it has made to arrive at the
handle. -/
def storeAndMaybeFlush (m : MetaStore) (ns : NamespaceName) (config : DatabaseConfig)
    (flush current ok : Bool) : MetaStore × Except UpdateError Unit :=
  match m.process ns (some config) flush ok with
  | (m, .error e) => (m, .error (.metaStore e))
  | (m, .ok ()) => if current then (m, .ok ()) else (m, .error .updateFailure)

/-- An operation, and whether the database of the metastore works meanwhile. -/
def perform (m : MetaStore) (op : MetaOp) (ok : Bool) : MetaStore × Except UpdateError Unit :=
  match op with
  | .handle ns => (m.handle ns, .ok ())
  | .store ns config flush current => m.storeAndMaybeFlush ns config flush current ok
  | .flush ns =>
    match m.process ns none true ok with
    | (m, .error e) => (m, .error (.metaStore e))
    | (m, .ok ()) => (m, .ok ())
  | .remove ns =>
    match m.remove ns ok with
    | (m, .error e) => (m, .error (.metaStore e))
    | (m, .ok _) => (m, .ok ())
  | .migrate schema pending =>
    ({ m with pending := Function.update m.pending schema pending }, .ok ())
  | .restart => (m.restore, .ok ())

/-- An operation as a step. -/
def step (m : MetaStore) (e : MetaOp × Bool) : Option MetaStore := some (m.perform e.1 e.2).1

/-- The metastore of a new server. -/
def empty : MetaStore := ⟨fun _ => none, fun _ => none, [], fun _ => false⟩

/-! ### What is asked of the metastore -/

/-- There is one link for each stored namespace with a shared schema, and no other. -/
structure LinksExact (m : MetaStore) : Prop where
  nodup : m.links.Nodup
  mem : ∀ schema ns, (schema, ns) ∈ m.links ↔
    ∃ row, m.rows ns = some row ∧ row.sharedSchemaName = some schema

/-- A registered namespace that no other is linked to can be removed, unless its schema has migrations
to be done. -/
def Removable (m : MetaStore) : Prop :=
  ∀ ns config, m.configs ns = some config → (∀ l ∈ m.links, l.1 ≠ ns) →
    (∀ schema, config.sharedSchemaName = some schema → m.pending schema = false) →
    (m.remove ns true).2 = .ok (some config)

/-- What an operation must do: a configuration that is stored and flushed survives a restart, whatever
is done to other namespaces before; an error changes nothing; and the links are right afterwards. -/
structure Durable (m : MetaStore) (op : MetaOp) (ok : Bool) : Prop where
  survives : ∀ ns config current, op = .store ns config true current →
    (m.perform op ok).2 = .ok () → ∀ es m', (∀ e ∈ es, e.1.changes ≠ some ns) →
    Run.exec step (m.perform op ok).1 es = some m' → m'.restore.configs ns = some config
  unchanged : ∀ e, (m.perform op ok).2 = .error e →
    (m.perform op ok).1.configs = m.configs ∧ (m.perform op ok).1.rows = m.rows ∧
      (m.perform op ok).1.links = m.links
  links : (m.perform op ok).1.LinksExact
  removable : (m.perform op ok).1.Removable

/-- What is asked of a store: the handle is current; a configuration that is flushed can be written,
or is the one in the map, and does not take a linked namespace away from its schema; one that is not
flushed has the schema of the row. -/
def Safe (m : MetaStore) (e : MetaOp × Bool) : Prop :=
  match e.1 with
  | .store ns config flush current =>
    current = true ∧
    (flush = true →
      (e.2 = true ∧ ∀ schema, config.sharedSchemaName = some schema →
        m.pending schema = false ∧ (schema = ns ∨ (m.rows schema).isSome = true)) ∨
      m.configs ns = some config) ∧
    (flush = true → ∀ row, m.rows ns = some row → config.sharedSchemaName = none →
      row.sharedSchemaName = none) ∧
    (flush = false → ∀ row, m.rows ns = some row →
      config.sharedSchemaName = row.sharedSchemaName)
  | _ => True

/-- What holds between operations. -/
structure Consistent (m : MetaStore) : Prop where
  rows : ∀ ns, (m.rows ns).isSome = true → m.registered ns = true
  links : m.LinksExact
  agree : ∀ ns row config, m.rows ns = some row → m.configs ns = some config →
    config.sharedSchemaName = row.sharedSchemaName

/-! ### Consistent metastores -/

variable {m m' : MetaStore} {ns : NamespaceName} {config : DatabaseConfig} {ok : Bool} {op : MetaOp}

theorem Consistent.removable (h : m.Consistent) : m.Removable := by
  intro ns config hconfig hunlinked hpending
  have hown : ∀ l ∈ m.links, l.2 = ns → config.sharedSchemaName = some l.1 := by
    rintro l hl rfl
    obtain ⟨row, hrow, hname⟩ := (h.links.mem l.1 l.2).1 hl
    exact (h.agree l.2 row config hrow hconfig).trans hname
  obtain ⟨links, hremoved⟩ := remove_of_unlinked hconfig hunlinked hown hpending
  rw [hremoved]

theorem LinksExact.tryProcess (h : m.LinksExact) (hnew : m.tryProcess ns config ok = .ok m')
    (hkeep : ∀ row, m.rows ns = some row → config.sharedSchemaName = none →
      row.sharedSchemaName = none) : m'.LinksExact := by
  obtain ⟨-, hrows, ⟨hname, hlinks⟩ | ⟨schema, hname, -, hlinks⟩⟩ := tryProcess_eq_ok hnew
  · refine ⟨by rw [hlinks]; exact h.nodup, fun schema ns' => ?_⟩
    rw [hlinks, hrows, h.mem]
    by_cases heq : ns' = ns
    · subst heq
      simp only [update_self, Option.some.injEq]
      constructor
      · rintro ⟨row, hrow, hrowName⟩
        simp [hkeep row hrow hname] at hrowName
      · rintro ⟨row, rfl, hrowName⟩
        simp [hname] at hrowName
    · rw [update_of_ne heq]
  · refine ⟨?_, fun schema' ns' => ?_⟩
    · rw [hlinks, nodup_append]
      refine ⟨h.nodup.filter _, by simp, fun l hl l' hl' => ?_⟩
      obtain rfl := mem_singleton.1 hl'
      rintro rfl
      simpa using (mem_filter.1 hl).2
    · rw [hlinks, hrows, mem_append, mem_filter, mem_singleton]
      by_cases heq : ns' = ns
      · subst heq
        simp [hname, eq_comm]
      · rw [update_of_ne heq, ← h.mem]
        simp [heq]

namespace Consistent

theorem empty : MetaStore.empty.Consistent where
  rows := nofun
  links := ⟨nodup_nil, fun schema ns => by simp [MetaStore.empty]⟩
  agree := nofun

variable (h : m.Consistent)
include h

theorem setConfig (hname : ∀ row, m.rows ns = some row →
    config.sharedSchemaName = row.sharedSchemaName) : (m.setConfig ns config).Consistent where
  rows := fun ns' hrow => isSome_update (h.rows ns' hrow)
  links := ⟨h.links.nodup, h.links.mem⟩
  agree := fun ns' row config' hrow hconfig => by
    rcases of_update_eq_some hconfig with ⟨rfl, ⟨⟩⟩ | ⟨-, hold⟩
    · exact hname row hrow
    · exact h.agree ns' row config' hrow hold

theorem handle (ns : NamespaceName) : (m.handle ns).Consistent := by
  refine h.setConfig fun row hrow => ?_
  have hregistered := h.rows ns (by rw [hrow]; rfl)
  obtain ⟨config, hconfig⟩ := Option.isSome_iff_exists.1 hregistered
  rw [hconfig]
  exact h.agree ns row config hrow hconfig

theorem written (hnew : m.tryProcess ns config ok = .ok m')
    (hkeep : ∀ row, m.rows ns = some row → config.sharedSchemaName = none →
      row.sharedSchemaName = none)
    {m'' : MetaStore} (hrows : m''.rows = m'.rows) (hlinks : m''.links = m'.links)
    (hconfigs : m''.configs = Function.update m.configs ns (some config)) : m''.Consistent := by
  have hexact := h.links.tryProcess hnew hkeep
  have hrows' := (tryProcess_eq_ok hnew).2.1
  constructor
  · intro ns' hrow
    rw [hrows, hrows'] at hrow
    rw [registered, hconfigs]
    by_cases heq : ns' = ns
    · simp [heq]
    · rw [update_of_ne heq] at hrow ⊢
      exact h.rows ns' hrow
  · exact ⟨by rw [hlinks]; exact hexact.nodup, by rw [hlinks, hrows]; exact hexact.mem⟩
  · intro ns' row config' hrow hconfig
    rw [hrows, hrows'] at hrow
    rw [hconfigs] at hconfig
    by_cases heq : ns' = ns
    · subst heq
      rw [update_self] at hrow hconfig
      cases hrow
      cases hconfig
      rfl
    · rw [update_of_ne heq] at hrow hconfig
      exact h.agree ns' row config' hrow hconfig

theorem remove (ns : NamespaceName) (ok : Bool) :
    (m.remove ns ok).1.Consistent := by
  obtain ⟨hspec, hlinks⟩ := remove_spares m ns ok
  generalize m.remove ns ok = r at hspec hlinks ⊢
  cases hspec with
  | failed | absent => exact h
  | removed config links hconfig hsub hfree =>
    have hgone : ∀ schema, (schema, ns) ∉ links := by
      intro schema hmem
      obtain ⟨row, hrow, -⟩ := (h.links.mem schema ns).1 (hsub _ hmem)
      exact (hfree (by rw [hrow]; rfl) _ hmem).2 rfl
    refine ⟨fun ns' hrow => ?_, ⟨hlinks.sub.nodup h.links.nodup, fun schema ns' => ?_⟩,
      fun ns' row config' hrow hconfig' => ?_⟩
    · by_cases heq : ns' = ns
      · simp [without, heq] at hrow
      · simp only [without, registered, update_of_ne heq] at hrow ⊢
        exact h.rows ns' hrow
    · by_cases heq : ns' = ns
      · subst heq
        simp only [without, update_self, reduceCtorEq, false_and, exists_false, iff_false]
        exact hgone schema
      · simp only [without, update_of_ne heq]
        rw [← h.links.mem]
        exact ⟨fun hmem => hsub _ hmem, fun hmem => hlinks.keep _ hmem heq⟩
    · by_cases heq : ns' = ns
      · simp [without, heq] at hrow
      · simp only [without, update_of_ne heq] at hrow hconfig'
        exact h.agree ns' row config' hrow hconfig'

theorem restore : m.restore.Consistent where
  rows := fun _ hrow => hrow
  links := ⟨h.links.nodup, h.links.mem⟩
  agree := fun _ _ _ hrow hconfig => by
    cases hrow.symm.trans hconfig
    rfl

end Consistent

/-! ### The operations -/

/-- The outcome of a safe store. -/
inductive Stores (m : MetaStore) (ns : NamespaceName) (config : DatabaseConfig) :
    Bool → MetaStore × Except UpdateError Unit → Prop
  | written {ok : Bool} {m' : MetaStore} (hnew : m.tryProcess ns config ok = .ok m')
      (hkeep : ∀ row, m.rows ns = some row → config.sharedSchemaName = none →
        row.sharedSchemaName = none) : Stores m ns config true (m'.setConfig ns config, .ok ())
  | failed (e : MetaError) (hold : m.configs ns = some config) :
      Stores m ns config true (m.setConfig ns config, .error (.metaStore e))
  | kept (hname : ∀ row, m.rows ns = some row →
      config.sharedSchemaName = row.sharedSchemaName) :
      Stores m ns config false (m.setConfig ns config, .ok ())

theorem stores_of_safe {flush current : Bool}
    (hsafe : m.Safe (.store ns config flush current, ok)) :
    Stores m ns config flush (m.storeAndMaybeFlush ns config flush current ok) := by
  obtain ⟨rfl, hwrite, hkeep, hname⟩ := hsafe
  cases flush with
  | false =>
    exact .kept (hname rfl)
  | true =>
    simp only [storeAndMaybeFlush, process, if_true]
    cases hnew : m.tryProcess ns config ok with
    | ok m' => exact .written hnew (hkeep rfl)
    | error e =>
      refine .failed e ?_
      rcases hwrite rfl with ⟨hok, hschema⟩ | hold
      · have hnext : ∃ m', m.tryProcess ns config ok = .ok m' := tryProcess_succeeds hok hschema
        obtain ⟨m', hm'⟩ := hnext
        cases hnew.symm.trans hm'
      · exact hold

theorem setConfig_of_same (hold : m.configs ns = some config) : m.setConfig ns config = m := by
  have hconfigs : Function.update m.configs ns (some config) = m.configs := by
    rw [← hold]
    exact update_eq_self _ _
  simp only [setConfig, hconfigs]

/-- A safe operation keeps the metastore consistent, and an error changes nothing. -/
theorem Consistent.perform (h : m.Consistent) (hsafe : m.Safe (op, ok)) :
    (m.perform op ok).1.Consistent ∧ ∀ e, (m.perform op ok).2 = .error e → (m.perform op ok).1 = m := by
  cases op with
  | handle ns => exact ⟨h.handle ns, nofun⟩
  | store ns config flush current =>
    have hstores := stores_of_safe hsafe
    simp only [MetaStore.perform]
    generalize m.storeAndMaybeFlush ns config flush current ok = r at hstores ⊢
    cases hstores with
    | written hnew hkeep =>
      refine ⟨h.written hnew hkeep rfl rfl ?_, nofun⟩
      rw [setConfig_configs, (tryProcess_eq_ok hnew).1]
    | failed e hold =>
      rw [setConfig_of_same hold]
      exact ⟨h, fun _ _ => rfl⟩
    | kept hname => exact ⟨h.setConfig hname, nofun⟩
  | flush ns =>
    have hflush := m.process_flushes ns true ok
    simp only [MetaStore.perform]
    generalize m.process ns none true ok = r at hflush ⊢
    cases hflush with
    | same r => cases r <;> exact ⟨h, fun _ _ => rfl⟩
    | written hconfig hnew =>
      refine ⟨h.written hnew (fun row hrow hname => ?_) rfl rfl ?_, nofun⟩
      · rw [← h.agree ns row _ hrow hconfig]
        exact hname
      · rw [(tryProcess_eq_ok hnew).1, ← hconfig]
        exact (update_eq_self _ _).symm
  | remove ns =>
    have hremove := h.remove ns ok
    have hspec := remove_spec m ns ok
    simp only [MetaStore.perform]
    generalize m.remove ns ok = r at hremove hspec ⊢
    cases hspec with
    | failed | absent => exact ⟨h, fun _ _ => rfl⟩
    | removed => exact ⟨hremove, nofun⟩
  | migrate schema pending => exact ⟨⟨h.rows, ⟨h.links.nodup, h.links.mem⟩, h.agree⟩, nofun⟩
  | restart => exact ⟨h.restore, nofun⟩

theorem flush_rows {ns' : NamespaceName} (m : MetaStore) (hne : ns ≠ ns') (flush ok : Bool) :
    (m.process ns' none flush ok).1.rows ns = m.rows ns := by
  have hflush := m.process_flushes ns' flush ok
  generalize m.process ns' none flush ok = r at hflush ⊢
  cases hflush with
  | same => rfl
  | written _ hnew => rw [(tryProcess_eq_ok hnew).2.1, update_of_ne hne]

theorem perform_rows (hne : op.changes ≠ some ns) :
    (m.perform op ok).1.rows ns = m.rows ns := by
  cases op with
  | handle ns' => rfl
  | store ns' config flush current =>
    have hrow := (m.setConfig ns' config).flush_rows (fun heq => hne (congrArg some heq.symm)) flush ok
    simp only [perform, storeAndMaybeFlush, process_some]
    generalize (m.setConfig ns' config).process ns' none flush ok = r at hrow ⊢
    obtain ⟨m', e | ⟨⟩⟩ := r
    · exact hrow
    · cases current <;> exact hrow
  | flush ns' =>
    have hrow := m.flush_rows (fun heq => hne (congrArg some heq.symm)) true ok
    simp only [perform]
    generalize m.process ns' none true ok = r at hrow ⊢
    obtain ⟨m', e | ⟨⟩⟩ := r <;> exact hrow
  | remove ns' =>
    have hns' : ns ≠ ns' := fun heq => hne (congrArg some heq.symm)
    have hspec := remove_spec m ns' ok
    simp only [perform]
    generalize m.remove ns' ok = r at hspec ⊢
    cases hspec with
    | failed | absent => rfl
    | removed config links _ _ _ => exact update_of_ne hns' _ _
  | migrate | restart => rfl

theorem exec_rows {es : List (MetaOp × Bool)} (hne : ∀ e ∈ es, e.1.changes ≠ some ns)
    (hrun : Run.exec step m es = some m') : m'.rows ns = m.rows ns := by
  induction es generalizing m with
  | nil =>
    cases hrun
    rfl
  | cons e es ih =>
    obtain ⟨m₁, h₁, hrun⟩ := Run.exec_cons_iff.1 hrun
    cases h₁
    rw [ih (fun e' he' => hne e' (mem_cons_of_mem e he')) hrun]
    exact perform_rows (hne e mem_cons_self)

theorem Consistent.durable_step (h : m.Consistent) (hsafe : m.Safe (op, ok)) :
    m.Durable op ok := by
  obtain ⟨hafter, hsame⟩ := h.perform hsafe
  refine ⟨?_, ?_, hafter.links, hafter.removable⟩
  · rintro ns config current rfl hok es m' hes hrun
    have hstores := stores_of_safe hsafe
    show m'.rows ns = some config
    rw [exec_rows hes hrun]
    simp only [MetaStore.perform] at hok ⊢
    generalize m.storeAndMaybeFlush ns config true current ok = r at hstores hok ⊢
    cases hstores with
    | written hnew hkeep =>
      rw [setConfig_rows, (tryProcess_eq_ok hnew).2.1]
      exact update_self _ _ _
    | failed e hold => cases hok
  · intro e herror
    rw [hsame e herror]
    exact ⟨rfl, rfl, rfl⟩

/-- **What the metastore keeps**: in a run of safe operations from the start, with any failures of the
database and any restarts, each operation is durable. -/
theorem durable (es : List (MetaOp × Bool)) (hsafe : Run.Along step Safe empty es) :
    Run.Along step (fun m e => m.Durable e.1 e.2) empty es :=
  Run.along_imp (I := Consistent) (fun _ _ h hsafe => h.durable_step hsafe)
    (fun _ _ _ h hsafe hstep => by
      cases hstep
      exact (h.perform hsafe).1)
    Consistent.empty hsafe

/-- The configuration of a schema, and of a namespace that shares it. -/
def schemaConfig : DatabaseConfig := ⟨none, true, none⟩

def sharingConfig : DatabaseConfig := ⟨some "catalogue", false, none⟩

theorem durable_shared :
    Run.Along step (fun m e => m.Durable e.1 e.2) empty
      [(.store "catalogue" schemaConfig true true, true), (.store "shop" sharingConfig true true, true),
        (.restart, true), (.remove "shop", true)] ∧
    Run.exec step empty [(.store "catalogue" schemaConfig true true, true),
        (.store "shop" sharingConfig true true, true)] ≠ none := by
  refine ⟨durable _ ?_, nofun⟩
  simp [Run.Along, Safe, step, empty, schemaConfig, sharingConfig, perform]
  exact .inl (by decide)

/-- **An error leaves a configuration behind**: the database fails, the store returns an error, and the
new configuration is in the map.  **A link is left behind**: a namespace is stored without its schema,
its link stays, and it cannot be removed any more. -/
theorem link_left :
    ((empty.perform (.store "shop" schemaConfig true true) false).2 = .error (.metaStore .sql) ∧
      (empty.perform (.store "shop" schemaConfig true true) false).1.configs "shop" =
        some schemaConfig ∧ empty.configs "shop" = none) ∧
    ∃ m, Run.exec step empty [(.store "catalogue" schemaConfig true true, true),
        (.store "shop" sharingConfig true true, true),
        (.store "shop" .initial true true, true)] = some m ∧
      m.rows "shop" = some .initial ∧ m.links = [("catalogue", "shop")] ∧
      (m.remove "shop" true).2 = .error .sql := by
  refine ⟨⟨rfl, by decide, rfl⟩, _, rfl, ?_⟩
  exact ⟨by decide, by decide, rfl⟩

end MetaStore

end SqlAnywhere.Server.Namespaces
