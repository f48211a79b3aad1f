import Mathlib.Data.Fintype.Basic
import SqlAnywhere.Lib.Run

/-!
# The locks of the metastore

An operation on the metastore takes the lock of the map, `configs`, and that of the connection to the
database, `conn`.  `remove` takes the connection first, so as not to keep others from the map while it
waits; a flush takes the map first.

* `Locking.step` — an operation takes a lock, gives one back or does its work
* `Locking.Apart` — a flush and a removal do not take their locks crosswise
* `Locking.progress_of_apart` — some operation can then always go on
-/

namespace SqlAnywhere.Server.Namespaces.Locking

open List

/-- The locks of `MetaStoreInner`. -/
inductive Lock
  | configs
  | conn
  deriving DecidableEq

/-- An operation, by what it does next: `process` of a configuration, which may be written first, or
of a flush; `remove`; and `handle`, or another that only reads the map. -/
inductive Phase
  | storeLockConn | storeWrite | storeLockConfigs | storeSet
  | flushLockConfigs | flushLook | flushLockConn | flushWrite | flushUnlock
  | removeLockConn | removeLockConfigs | removeDelete | removeUnlock
  | handleLockConfigs | handleLook
  | done
  deriving DecidableEq

namespace Phase

/-- The lock that it takes next. -/
def wants : Phase → Option Lock
  | .storeLockConn | .flushLockConn | .removeLockConn => some .conn
  | .storeLockConfigs | .flushLockConfigs | .removeLockConfigs | .handleLockConfigs => some .configs
  | _ => none

/-- The locks that it has. -/
def holds : Phase → Lock → Bool
  | .storeWrite, .conn | .storeSet, .configs | .flushLook, .configs | .flushLockConn, .configs
  | .flushWrite, _ | .flushUnlock, .configs | .removeLockConfigs, .conn | .removeDelete, _
  | .removeUnlock, .conn | .handleLook, .configs => true
  | _, _ => false

/-- A flush that does not find the namespace in the map has nothing to write. -/
def next (found : Bool) : Phase → Phase
  | .storeLockConn => .storeWrite
  | .storeWrite => .storeLockConfigs
  | .storeLockConfigs => .storeSet
  | .flushLockConfigs => .flushLook
  | .flushLook => if found then .flushLockConn else .done
  | .flushLockConn => .flushWrite
  | .flushWrite => .flushUnlock
  | .removeLockConn => .removeLockConfigs
  | .removeLockConfigs => .removeDelete
  | .removeDelete => .removeUnlock
  | .handleLockConfigs => .handleLook
  | _ => .done

/-- The first phase of an operation. -/
def isStart : Phase → Bool
  | .storeLockConn | .storeLockConfigs | .flushLockConfigs | .removeLockConn | .handleLockConfigs => true
  | _ => false

/-- The operation is one of `process`. -/
def isChange : Phase → Bool
  | .storeLockConn | .storeWrite | .storeLockConfigs | .storeSet => true
  | .flushLockConfigs | .flushLook | .flushLockConn | .flushWrite | .flushUnlock => true
  | _ => false

end Phase

variable {ι : Type} [DecidableEq ι] {s s' : ι → Phase} {t u : ι} {p q : Phase} {l l' l'' : Lock}

inductive Action (ι : Type)
  | begin (t : ι) (p : Phase)
  | act (t : ι) (found : Bool)

/-- One step of the operations, of which each has a place of its own. -/
def step [Fintype ι] (s : ι → Phase) : Action ι → Option (ι → Phase)
  | .begin t p =>
    -- the changes are processed one after the other
    if s t = .done ∧ p.isStart ∧ ¬(p.isChange ∧ ∃ u, (s u).isChange) then
      some (Function.update s t p) else none
  | .act t found =>
    if s t ≠ .done ∧ ∀ l ∈ (s t).wants, ∀ u, (s u).holds l = false then
      some (Function.update s t ((s t).next found)) else none

theorem next_eq_flushLockConn {found : Bool} (h : p.next found = .flushLockConn) :
    p = .flushLook ∧ found = true := by
  cases p <;> cases found <;> simp_all [Phase.next]

theorem next_eq_removeLockConfigs {found : Bool} (h : p.next found = .removeLockConfigs) :
    p = .removeLockConn := by
  cases p <;> cases found <;> simp_all [Phase.next]

/-- Only these two have one of the locks and take the other. -/
theorem wants_of_holds (h : p.holds l = true) (hw : p.wants = some l') :
    p = .flushLockConn ∧ l = .configs ∧ l' = .conn ∨
      p = .removeLockConfigs ∧ l = .conn ∧ l' = .configs := by
  cases p <;> cases l <;> simp_all [Phase.holds, Phase.wants]

variable [Fintype ι]

/-- An operation that cannot go on waits for one that has the lock. -/
theorem waits_of_stuck (hstuck : ∀ t found, step s (.act t found) = none) (h : s t ≠ .done) :
    ∃ l u, (s t).wants = some l ∧ (s u).holds l = true := by
  have hno := hstuck t true
  simp only [Locking.step, ite_eq_right_iff, reduceCtorEq, imp_false, not_and, not_forall,
    Bool.not_eq_false, Option.mem_def, exists_prop] at hno
  obtain ⟨l, hl, u, hu⟩ := hno h
  exact ⟨l, u, hl, hu⟩

theorem ne_done_of_holds (h : p.holds l = true) : p ≠ .done := by
  rintro rfl
  cases l <;> simp [Phase.holds] at h

/-! ### Runs in which a flush and a removal keep out of each other's way -/

/-- A removal that has locked the connection waits for the map, and a flush that has locked the map
for the connection. -/
def Crossed (s : ι → Phase) : Prop := (∃ t, s t = .flushLockConn) ∧ ∃ u, s u = .removeLockConfigs

omit [DecidableEq ι] [Fintype ι] in
/-- An operation that has a lock and takes one that another has, which takes one as well: the two
are a flush and a removal. -/
theorem crossed_of_waits (hl : (s t).holds l = true) (hw : (s t).wants = some l')
    (hl' : (s u).holds l' = true) (hw' : (s u).wants = some l'') : Crossed s := by
  obtain ⟨ht, rfl, rfl⟩ | ⟨ht, rfl, rfl⟩ := wants_of_holds hl hw <;>
    obtain ⟨hu, hc, -⟩ | ⟨hu, hc, -⟩ := wants_of_holds hl' hw'
  all_goals cases hc
  · exact ⟨⟨t, ht⟩, u, hu⟩
  · exact ⟨⟨u, hu⟩, t, ht⟩

/-- The step does not take a lock crosswise: a flush that has the map and finds its namespace there
goes for the connection only while no removal has it and waits for the map, and a removal takes the
connection only while no flush has the map and waits for it. -/
def Apart (s : ι → Phase) : Action ι → Prop
  | .begin _ _ => True
  | .act t found =>
    (s t = .flushLook → found = true → ∀ u, s u ≠ .removeLockConfigs) ∧
      (s t = .removeLockConn → ∀ u, s u ≠ .flushLockConn)

instance (s : ι → Phase) (a : Action ι) : Decidable (Apart s a) := by
  cases a <;> unfold Apart <;> infer_instance

theorem not_crossed_step {a : Action ι} (hno : ¬Crossed s) (hok : Apart s a)
    (h : step s a = some s') : ¬Crossed s' := by
  -- only the flush that goes for the connection and the removal that has it get nearer to each other
  have hkeep (t : ι) {q : Phase}
      (hf : q = .flushLockConn → ∀ u, s u ≠ .removeLockConfigs)
      (hr : q = .removeLockConfigs → ∀ u, s u ≠ .flushLockConn) :
      ¬Crossed (Function.update s t q) := by
    rintro ⟨⟨v, hv⟩, w, hw⟩
    simp only [Function.update_apply] at hv hw
    split_ifs at hv hw with hvt hwt hwt
    · simp [hv] at hw
    · exact hf hv w hw
    · exact hr hw v hv
    · exact hno ⟨⟨v, hv⟩, w, hw⟩
  cases a with
  | begin t p =>
    obtain ⟨⟨-, hp, -⟩, ⟨⟩⟩ := Option.ite_none_right_eq_some.1 h
    refine hkeep t ?_ ?_ <;> rintro rfl <;> simp [Phase.isStart] at hp
  | act t found =>
    obtain ⟨-, ⟨⟩⟩ := Option.ite_none_right_eq_some.1 h
    refine hkeep t (fun hq => ?_) (fun hq => ?_)
    · obtain ⟨hlook, hfound⟩ := next_eq_flushLockConn hq
      exact hok.1 hlook hfound
    · exact hok.2 (next_eq_removeLockConfigs hq)

/-- **No operation waits for ever on another**: in every state that the operations reach by steps that
take no lock crosswise, some operation that is not done can go on, and no two wait for each other. -/
theorem progress_of_apart (es : List (Action ι)) (hok : Run.Along step Apart (fun _ => .done) es)
    (hrun : Run.exec step (fun _ => .done) es = some s) :
    ((∃ t, s t ≠ .done) → ∃ t found, step s (.act t found) ≠ none) ∧
      ¬∃ t u l l', (s t).holds l = true ∧ (s t).wants = some l' ∧ (s u).holds l' = true ∧
        (s u).wants = some l := by
  have hno : ¬Crossed s := Run.exec_invariant (I := fun s => ¬Crossed s)
    (fun _ _ _ hno hok h => not_crossed_step hno hok h) (by simp [Crossed]) hok hrun
  refine ⟨fun hopen => ?_, ?_⟩
  · by_contra hstuck
    push Not at hstuck
    obtain ⟨t₀, h₀⟩ := hopen
    obtain ⟨l, t, -, hl⟩ := waits_of_stuck hstuck h₀
    obtain ⟨l', u, hw, hl'⟩ := waits_of_stuck hstuck (ne_done_of_holds hl)
    obtain ⟨l'', v, hw', -⟩ := waits_of_stuck hstuck (ne_done_of_holds hl')
    exact hno (crossed_of_waits hl hw hl' hw')
  · rintro ⟨t, u, l, l', hl, hw, hl', hw'⟩
    exact hno (crossed_of_waits hl hw hl' hw')

/-- A flush and a removal of a registered namespace, at the same time. -/
def flushRemove : List (Action (Fin 2)) :=
  [.begin 0 .flushLockConfigs, .begin 1 .removeLockConn, .act 0 true, .act 1 true, .act 0 true]

/-- Neither of them ends. -/
theorem flush_remove_stuck :
    ∃ s, Run.exec step (fun _ => .done) flushRemove = some s ∧ (∀ t, s t ≠ .done) ∧
      ∀ t found, step s (.act t found) = none :=
  ⟨_, rfl, by decide, by decide⟩

/-- They both end when the flush has the connection before the removal. -/
theorem progress_of_apart_flushFirst :
    ∃ s, Run.exec step (fun _ => .done) ([.begin 0 .flushLockConfigs, .begin 1 .removeLockConn,
        .act 0 true, .act 0 true, .act 0 true] : List (Action (Fin 2))) = some s ∧
      s 0 = .flushWrite ∧ s 1 = .removeLockConn ∧
      ((∃ t, s t ≠ .done) → ∃ t found, step s (.act t found) ≠ none) :=
  ⟨_, rfl, rfl, rfl, (progress_of_apart [.begin 0 .flushLockConfigs, .begin 1 .removeLockConn,
    .act 0 true, .act 0 true, .act 0 true] (by decide) rfl).1⟩

end SqlAnywhere.Server.Namespaces.Locking
