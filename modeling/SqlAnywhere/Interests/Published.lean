import Mathlib.Data.List.Perm.Basic
import SqlAnywhere.Interests

/-!
# Interests are told of every vector within their reach

The triggers are found by names that are put together of the names of a table and a column, the
registry compares names as they are written, and only the length of a blob is looked at before its
distance is computed.

* `Careful` — which calls and statements are considered
* `published_of_careful` — they publish what they owe, and never fail
* `interests_missed` — otherwise an interest may be missed, or a statement fail
-/

namespace SqlAnywhere.Interests

open List Keyed
open Live (nocase)
open VectorBlob

/-! ### Names -/

/-- The name is spelled as in the schema, if the schema has it. -/
def Spelled (E : Engine) (table : String) : Prop :=
  ∀ t ∈ E.tables, nocase t.name = nocase table → t.name = table

instance (E : Engine) (table : String) : Decidable (Spelled E table) :=
  inferInstanceAs (Decidable (∀ t ∈ E.tables, _))

/-- The name of a table of the schema, as it is spelled there. -/
structure Named (E : Engine) (table : String) : Prop where
  spelled : Spelled E table
  mem : ∃ t ∈ E.tables, t.name = table

theorem Named.nocase_iff {E : Engine} {a b : String} (ha : Named E a) (hb : Spelled E b) :
    nocase a = nocase b ↔ a = b := by
  constructor
  · intro h
    obtain ⟨t, ht, rfl⟩ := ha.mem
    exact hb t ht h
  · rintro rfl
    rfl

theorem Named.of_vectorType {E : Engine} {table column : String} {found : VectorType × ℕ}
    (hspelled : Spelled E table) (h : vectorType E table column = .ok found) : Named E table := by
  unfold vectorType at h
  cases htable : E.tableAt table with
  | none =>
    simp [htable] at h
  | some t =>
    have hname : nocase t.name = nocase table := by simpa using find?_some htable
    have hmem := mem_of_find?_eq_some htable
    exact ⟨hspelled, t, hmem, hspelled t hmem hname⟩

theorem ok_of_bind {ε α β : Type*} {x : Except ε α} {f : α → Except ε β} {b : β}
    (h : x.bind f = .ok b) : ∃ a, x = .ok a ∧ f a = .ok b := by
  cases x with
  | error e => cases h
  | ok a => exact ⟨a, rfl, h⟩

theorem named_of_newInterest {E : Engine} {db : Db} {table column name channel vector : String}
    {maxDistance : ℚ} {i : Interest} (hspelled : Spelled E table)
    (h : newInterest E db table column name channel vector maxDistance = .ok i) :
    Named E i.tbl := by
  obtain ⟨found, hfound, h⟩ := ok_of_bind h
  simp only at h
  split at h
  · cases h
  split_ifs at h
  split at h
  · cases h
  · cases h
    exact Named.of_vectorType hspelled hfound

theorem Trigger.name_eq (g : Trigger) :
    g.name = nocase ("sqlanywhere_interest_" ++ g.table ++ "_" ++ g.column) ++
      nocase ("_" ++ g.kind.suffix) := by
  change nocase ("sqlanywhere_interest_" ++ g.table ++ "_" ++ g.column ++ "_" ++ g.kind.suffix) = _
  rw [Live.nocase_append, Live.nocase_append _ "_", append_assoc, Live.nocase_append "_"]

theorem suffix_injective {k k' : Kind}
    (h : nocase ("_" ++ k.suffix) = nocase ("_" ++ k'.suffix)) : k = k' := by
  cases k <;> cases k' <;> first | rfl | exact absurd h (by decide)

/-- Triggers of the two kinds never share a name, and of one kind as those of the other. -/
theorem Trigger.name_inj {t c t' c' : String} {k k' : Kind}
    (h : (⟨t, c, k⟩ : Trigger).name = (⟨t', c', k'⟩ : Trigger).name) :
    k = k' ∧ (⟨t, c, .ins⟩ : Trigger).name = (⟨t', c', .ins⟩ : Trigger).name := by
  rw [Trigger.name_eq, Trigger.name_eq] at h
  have hlen : ∀ k : Kind, (nocase ("_" ++ k.suffix)).length = 4 := by
    intro k
    cases k <;> decide
  obtain ⟨hfront, hback⟩ := append_inj' h ((hlen k).trans (hlen k').symm)
  refine ⟨suffix_injective hback, ?_⟩
  rw [Trigger.name_eq, Trigger.name_eq]
  exact congrArg (· ++ nocase ("_" ++ Kind.ins.suffix)) hfront

/-! ### What holds between the steps -/

/-- The triggers of a column. -/
def triggersOf (p : String × String) : List Trigger := [⟨p.1, p.2, .ins⟩, ⟨p.1, p.2, .upd⟩]

/-- The database has what the calls have asked for. -/
structure Kept (E : Engine) (s : State) : Prop where
  triggers : s.db.triggers = s.ledger.watched.flatMap triggersOf
  registry : s.db.registry = s.ledger.interests
  watched : ∀ p ∈ s.ledger.watched, Named E p.1 ∧ ∀ t ∈ E.tables, t.name = p.1 → ¬ t.withoutRowid
  rowids : ∀ p ∈ s.ledger.watched, E.rowidColumn p.1 = none
  nodup : s.ledger.watched.Nodup
  interests : ∀ i ∈ s.ledger.interests, Named E i.tbl

theorem Kept.new (E : Engine) : Kept E Sys.new.now := ⟨rfl, rfl, nofun, nofun, nodup_nil, nofun⟩

/-- Apart from its own, a column shares the names of its triggers with none that is watched. -/
def Alone (l : Ledger) (table column : String) : Prop :=
  ∀ p ∈ l.watched, (⟨p.1, p.2, .ins⟩ : Trigger).name = (⟨table, column, .ins⟩ : Trigger).name →
    p = (table, column)

instance (l : Ledger) (table column : String) : Decidable (Alone l table column) :=
  inferInstanceAs (Decidable (∀ p ∈ l.watched, _))

theorem addTrigger_events (db : Db) (g : Trigger) : (db.addTrigger g).events = db.events := by
  unfold Db.addTrigger
  split <;> rfl

theorem install_ok {E : Engine} {db db' : Db} {table column : String}
    (h : install E db table column = .ok db') :
    (∃ found, vectorType E table column = .ok found) ∧
      (¬ E.tables.any fun t => t.name = table && t.withoutRowid) ∧
      db' = (({ db with hasRegistry := true } : Db).addTrigger ⟨table, column, .ins⟩).addTrigger
        ⟨table, column, .upd⟩ := by
  obtain ⟨found, hfound, h⟩ := ok_of_bind h
  split_ifs at h with hrowid
  exact ⟨⟨found, hfound⟩, hrowid, (Except.ok.inj h).symm⟩

theorem filter_flatMap_of {α β : Type*} {l : List α} {g : α → List β} {q : β → Bool}
    {keep : α → Bool} (h : ∀ a ∈ l, (g a).filter q = if keep a then g a else []) :
    (l.flatMap g).filter q = (l.filter keep).flatMap g := by
  induction l with
  | nil => rfl
  | cons a l ih =>
    rw [flatMap_cons, filter_append, h a mem_cons_self,
      ih fun b hb => h b (mem_cons_of_mem _ hb), filter_cons]
    split
    · rw [flatMap_cons]
    · rw [nil_append]

namespace Kept

variable {E : Engine} {s : State} {table column : String}

variable (h : Kept E s)
include h

theorem watches_iff (hspelled : Spelled E table) :
    s.ledger.Watches table column ↔ (table, column) ∈ s.ledger.watched := by
  constructor
  · rintro ⟨p, hp, hname, rfl⟩
    obtain rfl := ((h.watched p hp).1.nocase_iff hspelled).1 hname
    exact hp
  · intro hp
    exact ⟨_, hp, rfl, rfl⟩

theorem mem_triggers {g : Trigger} :
    g ∈ s.db.triggers ↔ (g.table, g.column) ∈ s.ledger.watched := by
  rw [h.triggers, mem_flatMap]
  constructor
  · rintro ⟨p, hp, hg⟩
    rcases mem_pair.1 hg with rfl | rfl <;> exact hp
  · intro hp
    refine ⟨_, hp, mem_pair.2 ?_⟩
    obtain ⟨t, c, k⟩ := g
    cases k
    · exact .inl rfl
    · exact .inr rfl

theorem mem_of_name (halone : Alone s.ledger table column) {g : Trigger} {k : Kind}
    (hg : g ∈ s.db.triggers) (hname : g.name = (⟨table, column, k⟩ : Trigger).name) :
    g = ⟨table, column, k⟩ := by
  obtain ⟨t, c, k'⟩ := g
  obtain ⟨rfl, hins⟩ := Trigger.name_inj hname
  have hp := halone _ (h.mem_triggers.1 hg) hins
  cases hp
  rfl

variable (hspelled : Spelled E table)
include hspelled

theorem install (halone : Alone s.ledger table column) (hown : E.rowidColumn table = none)
    {db : Db} (hcall : install E s.db table column = .ok db) :
    Kept E ⟨db, s.ledger.install table column⟩ := by
  obtain ⟨⟨found, hfound⟩, hrowid, rfl⟩ := install_ok hcall
  have hnamed := Named.of_vectorType hspelled hfound
  by_cases hmem : (table, column) ∈ s.ledger.watched
  · -- both triggers are there
    have hledger : s.ledger.install table column = s.ledger :=
      if_pos ((h.watches_iff hspelled).2 hmem)
    have hadd : ∀ k : Kind, ({ s.db with hasRegistry := true } : Db).addTrigger
        ⟨table, column, k⟩ = { s.db with hasRegistry := true } := by
      intro k
      have hg : (⟨table, column, k⟩ : Trigger) ∈ s.db.triggers := h.mem_triggers.2 hmem
      exact if_pos (any_eq_true.2 ⟨_, hg, by simp⟩)
    rw [hledger, hadd .ins, hadd .upd]
    exact { h with }
  · have hledger : s.ledger.install table column =
        { s.ledger with watched := s.ledger.watched ++ [(table, column)] } :=
      if_neg (mt (h.watches_iff hspelled).1 hmem)
    have hnew : ∀ g ∈ s.db.triggers, ∀ k : Kind, g.name ≠ (⟨table, column, k⟩ : Trigger).name := by
      intro g hg k hname
      obtain rfl := h.mem_of_name halone hg hname
      exact hmem (h.mem_triggers.1 hg)
    have hins : ({ s.db with hasRegistry := true } : Db).addTrigger ⟨table, column, .ins⟩ =
        { s.db with hasRegistry := true, triggers := s.db.triggers ++ [⟨table, column, .ins⟩] } :=
      if_neg (by simpa using fun g hg => hnew g hg .ins)
    have hupd : ({ s.db with
          hasRegistry := true, triggers := s.db.triggers ++ [⟨table, column, .ins⟩] } :
          Db).addTrigger ⟨table, column, .upd⟩ =
        { s.db with
          hasRegistry := true, triggers := s.db.triggers ++ [⟨table, column, .ins⟩] ++
            [⟨table, column, .upd⟩] } := by
      refine if_neg ?_
      rw [any_append, Bool.or_eq_true, not_or]
      refine ⟨by simpa using fun g hg => hnew g hg .upd, ?_⟩
      simpa using fun hname => nomatch (Trigger.name_inj hname).1
    rw [hledger, hins, hupd]
    refine ⟨?_, h.registry, ?_, forall_mem_append.2 ⟨h.rowids, forall_mem_singleton.2 hown⟩, ?_,
      h.interests⟩
    · rw [flatMap_append, ← h.triggers, append_assoc]
      rfl
    · intro p hp
      rcases mem_append.1 hp with hp | hp
      · exact h.watched p hp
      obtain rfl := mem_singleton.1 hp
      refine ⟨hnamed, ?_⟩
      intro t ht hname hwithout
      exact hrowid (any_eq_true.2 ⟨t, ht, by simp [hname, hwithout]⟩)
    · exact nodup_append.2 ⟨h.nodup, nodup_singleton _, by
        rintro p hp q hq rfl
        exact hmem (mem_singleton.1 hq ▸ hp)⟩

/-- The rows of the registry are those of the ledger, however the name of their table is compared. -/
theorem filter_registry (q : Interest → Prop)
    [DecidablePred q] :
    s.db.registry.filter (fun i => ¬ (i.tbl = table ∧ q i)) =
      s.ledger.interests.filter (fun i => ¬ (nocase i.tbl = nocase table ∧ q i)) := by
  rw [h.registry]
  refine filter_congr fun i hi => ?_
  rw [decide_eq_decide, (h.interests i hi).nocase_iff hspelled]

theorem uninstall
    (halone : Alone s.ledger table column) :
    Kept E ⟨uninstall s.db table column, s.ledger.uninstall table column⟩ := by
  refine ⟨?_, h.filter_registry hspelled (fun i => i.col = column), ?_,
    fun p hp => h.rowids p (mem_of_mem_filter hp), h.nodup.filter _, ?_⟩
  · show ((s.db.triggers.filter _).filter _) = (s.ledger.watched.filter _).flatMap triggersOf
    rw [filter_filter, h.triggers]
    refine filter_flatMap_of fun p hp => ?_
    by_cases hown : p = (table, column)
    · subst hown
      simp [triggersOf]
    · have hname : ∀ k k' : Kind,
          (⟨p.1, p.2, k⟩ : Trigger).name ≠ (⟨table, column, k'⟩ : Trigger).name :=
        fun k k' hname => hown (halone p hp (Trigger.name_inj hname).2)
      have hkeep : ¬ (nocase p.1 = nocase table ∧ p.2 = column) := by
        rintro ⟨hnocase, rfl⟩
        exact hown (Prod.ext (((h.watched p hp).1.nocase_iff hspelled).1 hnocase) rfl)
      simp [triggersOf, hname, hkeep]
  · intro p hp
    exact h.watched p (mem_of_mem_filter hp)
  · intro i hi
    exact h.interests i (mem_of_mem_filter hi)

theorem unsubscribe (column name : String) :
    Kept E ⟨unsubscribe s.db table column name, s.ledger.unsubscribe table column name⟩ :=
  { h with
    registry := h.filter_registry hspelled (fun i => i.col = column ∧ i.name = name)
    interests := fun i hi => h.interests i (mem_of_mem_filter hi) }

omit hspelled

theorem subscribe {i : Interest} (hnamed : Named E i.tbl) :
    Kept E ⟨subscribe s.db i, s.ledger.subscribe i⟩ := by
  have hrest := h.unsubscribe hnamed.spelled i.col i.name
  exact { hrest with
    registry := congrArg (· ++ [i]) hrest.registry
    interests := forall_mem_append.2 ⟨hrest.interests, forall_mem_singleton.2 hnamed⟩ }

end Kept

/-! ### Statements -/

/-- A blob has the length of the interest's vector just when it is a vector of its kind. -/
def Fits (i : Interest) : Value → Prop
  | .blob b => b.length = i.vec.length ↔ sameKind i.vec b = true
  | _ => True

instance (i : Interest) : (v : Value) → Decidable (Fits i v)
  | .blob _ => inferInstanceAs (Decidable (_ ↔ _))
  | .null => isTrue trivial
  | .integer _ => isTrue trivial
  | .real _ => isTrue trivial
  | .text _ => isTrue trivial

theorem distance_of_fits {E : Engine} {i : Interest} {v : Value} (h : Fits i v) :
    i.distance E v = .ok (i.distance? E v) := by
  cases v with
  | blob b =>
    simp only [Interest.distance, Interest.distance?]
    by_cases hlen : b.length = i.vec.length
    · rw [if_pos hlen, vectorDistanceFunc_eq_ok _ (h.1 hlen)]
      rfl
    · rw [if_neg hlen, distance?_eq_none _ (Bool.eq_false_iff.2 (mt h.2 hlen))]
  | _ => rfl

theorem mapM_of_ok {α β ε : Type*} {l : List α} {f : α → Except ε β} {g : α → β}
    (h : ∀ a ∈ l, f a = .ok (g a)) : l.mapM f = .ok (l.map g) := by
  refine (mapM_ok_iff (p := fun _ => True) ?_).2 ⟨fun _ _ => trivial, rfl⟩
  intro a ha b
  rw [h a ha, Except.ok.injEq, true_and, eq_comm]

/-- The interests in a column that a value is given to. -/
def reachedBy (E : Engine) (interests : List Interest) (p : String × String) (rowid v : Value) :
    List Event :=
  (Keyed.fiber (fun i : Interest => (i.tbl, i.col)) p interests).filterMap fun i =>
    i.reached i.tbl i.col rowid (i.distance? E v)

theorem publish_of_fits {E : Engine} {db : Db} {p : String × String} {rowid v : Value}
    (hrowid : isBlob rowid = false) (hfits : ∀ i ∈ db.registry, (i.tbl, i.col) = p → Fits i v) :
    ∃ events, db.publish E p.1 p.2 rowid v = .ok events ∧
      events.Perm (reachedBy E db.registry p rowid v) := by
  have hfiber : (db.registry.filter fun i => i.tbl = p.1 ∧ i.col = p.2) =
      fiber (fun i : Interest => (i.tbl, i.col)) p db.registry := by
    refine filter_congr fun i _ => ?_
    rw [decide_eq_decide, Prod.ext_iff]
  have hall : ∀ i ∈ fiber (fun i : Interest => (i.tbl, i.col)) p db.registry,
      ((i.distance E v).map fun d => i.reached p.1 p.2 rowid d) =
        .ok (i.reached i.tbl i.col rowid (i.distance? E v)) := by
    intro i hi
    obtain ⟨hmem, rfl⟩ := mem_fiber.1 hi
    rw [distance_of_fits (hfits i hmem rfl)]
    rfl
  refine ⟨_, ?_, perm_insertionSort Event.before _⟩
  rw [Db.publish, hfiber, mapM_of_ok hall]
  simp only [Except.bind, filterMap_map, Function.id_comp, hrowid]
  rfl

/-- The events that a change owes to the interests in one column. -/
def owedIn (E : Engine) (w : Write) (change : Change) (interests : List Interest)
    (p : String × String) : List Event :=
  if nocase p.1 = nocase w.table then
    (change.given p.2).elim [] (reachedBy E interests p (.integer change.rowid))
  else []

theorem given_eq_none {w : Write} {change : Change} (hchange : change ∈ w.changes) {old : Row}
    (hold : change.old = some old) {column : String} (hset : column ∉ w.sets) :
    change.given column = none := by
  unfold Change.given
  cases hnew : change.new with
  | none => rfl
  | some new =>
    have hkept := w.kept change hchange old hold new hnew column hset
    rw [Option.bind_some, hold, hkept]
    exact if_pos (.inr rfl)

/-- **The triggers of a column publish what is owed in it**, the one for rows that are inserted or
the other one. -/
theorem fire_of_fits {E : Engine} {db : Db} {w : Write} {change : Change}
    (hchange : change ∈ w.changes) {p : String × String} (hrowid : E.rowidColumn p.1 = none)
    (hfits : nocase p.1 = nocase w.table → ∀ i ∈ db.registry, (i.tbl, i.col) = p →
      ∀ v ∈ change.given p.2, Fits i v) :
    ∃ ins upd, db.fire E w change ⟨p.1, p.2, .ins⟩ = .ok ins ∧
      db.fire E w change ⟨p.1, p.2, .upd⟩ = .ok upd ∧
      (ins ++ upd).Perm (owedIn E w change db.registry p) := by
  unfold owedIn
  by_cases htable : nocase p.1 = nocase w.table
  swap
  · exact ⟨[], [], if_neg htable, if_neg htable, by rw [if_neg htable]; exact .refl _⟩
  have hpublish : ∀ v ∈ change.given p.2, ∃ events,
      db.publish E p.1 p.2 (.integer change.rowid) v = .ok events ∧
        events.Perm (reachedBy E db.registry p (.integer change.rowid) v) :=
    fun v hv => publish_of_fits rfl fun i hi hp => hfits htable i hi hp v hv
  simp only [Db.fire, if_pos htable, Trigger.fires, Change.newRowid, hrowid]
  cases hold : change.old with
  | none =>
    cases hgiven : change.given p.2 with
    | none => exact ⟨[], [], rfl, rfl, .refl _⟩
    | some v =>
      obtain ⟨events, hevents, hperm⟩ := hpublish v hgiven
      exact ⟨events, [], hevents, rfl, by simpa using hperm⟩
  | some old =>
    by_cases hset : p.2 ∈ w.sets
    · cases hgiven : change.given p.2 with
      | none => exact ⟨[], [], rfl, by simp [hset], .refl _⟩
      | some v =>
        obtain ⟨events, hevents, hperm⟩ := hpublish v hgiven
        exact ⟨[], events, rfl, by simpa [hset] using hevents, hperm⟩
    · rw [given_eq_none hchange hold hset]
      exact ⟨[], [], rfl, by simp [hset], .refl _⟩

theorem mapM_perm {α β γ ε : Type*} {l : List α} {f : α → Except ε β} {part : β → List γ}
    {g : α → List γ} (h : ∀ a ∈ l, ∃ b, f a = .ok b ∧ (part b).Perm (g a)) :
    ∃ bs, l.mapM f = .ok bs ∧ (bs.flatMap part).Perm (l.flatMap g) := by
  induction l with
  | nil => exact ⟨[], rfl, .refl _⟩
  | cons a l ih =>
    obtain ⟨b, hb, hperm⟩ := h a mem_cons_self
    obtain ⟨bs, hbs, hrest⟩ := ih fun a' ha' => h a' (mem_cons_of_mem _ ha')
    refine ⟨b :: bs, by rw [mapM_cons, hb, hbs]; rfl, ?_⟩
    rw [flatMap_cons, flatMap_cons]
    exact hperm.append hrest

/-- The condition on a statement. -/
def CarefulWrite (l : Ledger) (w : Write) : Prop :=
  ∀ change ∈ w.changes, ∀ i ∈ l.interests, nocase i.tbl = nocase w.table → l.Watches i.tbl i.col →
    ∀ v ∈ change.given i.col, Fits i v

namespace Kept

variable {E : Engine} {s : State} {w : Write} {change : Change}

variable (h : Kept E s)
include h

theorem compiles (w : Write) : s.db.compiles E w = true := by
  rw [Db.compiles, Bool.not_eq_true', Bool.and_eq_false_iff, or_iff_not_imp_left, Bool.not_eq_false]
  intro hwithout
  obtain ⟨t, ht, hwithout⟩ := (Option.any_eq_true _ _).1 hwithout
  have hname : nocase t.name = nocase w.table := by simpa using find?_some ht
  refine any_eq_false.2 fun g hg => ?_
  obtain ⟨hnamed, hrowid⟩ := h.watched _ (h.mem_triggers.1 hg)
  intro hfires
  have hon : nocase g.table = nocase w.table := by simp_all
  have hmem := mem_of_find?_eq_some ht
  exact hrowid t hmem (hnamed.spelled t hmem (hname.trans hon.symm)) hwithout

theorem owedIn_eq {p : String × String} (hp : p ∈ s.ledger.watched) :
    owedIn E w change s.ledger.interests p =
      (fiber (fun i : Interest => (i.tbl, i.col)) p s.ledger.interests).filterMap
        (s.ledger.owed E w change) := by
  have howed : ∀ i ∈ fiber (fun i : Interest => (i.tbl, i.col)) p s.ledger.interests,
      s.ledger.owed E w change i = if nocase p.1 = nocase w.table then
        (change.given p.2).bind fun v =>
          i.reached i.tbl i.col (.integer change.rowid) (i.distance? E v)
      else none := by
    intro i hi
    obtain ⟨hmem, rfl⟩ := mem_fiber.1 hi
    have hwatches := (h.watches_iff (h.interests i hmem).spelled).2 hp
    simp [Ledger.owed, hwatches]
  rw [filterMap_congr howed, owedIn]
  by_cases htable : nocase p.1 = nocase w.table
  · simp only [if_pos htable]
    cases change.given p.2 with
    | none => simp
    | some v => rfl
  · simp [if_neg htable]

theorem owed_perm (w : Write) (change : Change) :
    (s.ledger.watched.flatMap (owedIn E w change s.ledger.interests)).Perm
      (s.ledger.interests.filterMap (s.ledger.owed E w change)) := by
  have hfiber := (flatMap_fiber_perm (f := fun i : Interest => (i.tbl, i.col)) h.nodup
    s.ledger.interests).filterMap (s.ledger.owed E w change)
  rw [filterMap_flatMap, ← flatMap_congr fun p hp => h.owedIn_eq hp, filterMap_filter] at hfiber
  refine hfiber.trans (.of_eq (filterMap_congr fun i hi => ?_))
  split
  · rfl
  rename_i hnot
  refine (if_neg ?_).symm
  rintro ⟨-, hwatches⟩
  rw [h.watches_iff (h.interests i hi).spelled] at hwatches
  exact hnot (by simpa using hwatches)

/-- **A statement publishes what it owes.** -/
theorem write (hw : CarefulWrite s.ledger w) :
    ∃ published, s.db.write E w = .ok { s.db with events := s.db.events ++ published } ∧
      published.Perm (s.ledger.due E w) := by
  have hfire : ∀ change ∈ w.changes, ∃ ess, s.db.triggers.mapM (s.db.fire E w change) = .ok ess ∧
      ess.flatten.Perm (s.ledger.watched.flatMap (owedIn E w change s.ledger.interests)) := by
    intro change hchange
    have hpair : ∀ p ∈ s.ledger.watched, ∃ ins upd,
        s.db.fire E w change ⟨p.1, p.2, .ins⟩ = .ok ins ∧
        s.db.fire E w change ⟨p.1, p.2, .upd⟩ = .ok upd ∧
        (ins ++ upd).Perm (owedIn E w change s.ledger.interests p) := by
      intro p hp
      rw [← h.registry]
      refine fire_of_fits hchange (h.rowids p hp) fun htable i hi heq v hv => ?_
      subst heq
      rw [h.registry] at hi
      exact hw change hchange i hi htable
        ((h.watches_iff (h.interests i hi).spelled).2 hp) v hv
    rw [h.triggers]
    generalize s.ledger.watched = ps at hpair
    induction ps with
    | nil => exact ⟨[], rfl, .refl _⟩
    | cons p ps ih =>
      obtain ⟨ins, upd, hins, hupd, hperm⟩ := hpair p mem_cons_self
      obtain ⟨ess, hess, hrest⟩ := ih fun q hq => hpair q (mem_cons_of_mem _ hq)
      refine ⟨ins :: upd :: ess, ?_, ?_⟩
      · rw [flatMap_cons, triggersOf, cons_append, cons_append, nil_append,
          mapM_cons, mapM_cons, hins, hupd, hess]
        rfl
      · rw [flatten_cons, flatten_cons, flatMap_cons, ← append_assoc]
        exact hperm.append hrest
  obtain ⟨published, hpublished, hperm⟩ := mapM_perm hfire
  refine ⟨published.flatten.flatten, ?_, ?_⟩
  · rw [Db.write, if_pos (h.compiles w), hpublished]
    rfl
  · rw [flatten_flatten, ← flatMap_def]
    refine hperm.trans ?_
    exact List.Perm.flatMap_left _ fun change _ => h.owed_perm w change

end Kept

/-! ### Whole runs -/

/-- **The steps that keep interests in order**: a call names its table as it is spelled in the
schema, a column that is watched, or no longer watched, shares the names of its triggers with no
other one that is, a table with watched columns has none with the name `rowid`, and what a statement
gives to watched columns fits the interests in them. -/
def Careful (E : Engine) (s : Sys) : Action → Prop
  | .install table column =>
    Spelled E table ∧ Alone s.now.ledger table column ∧ E.rowidColumn table = none
  | .uninstall table column => Spelled E table ∧ Alone s.now.ledger table column
  | .subscribe table _ _ _ _ _ => Spelled E table
  | .unsubscribe table _ _ => Spelled E table
  | .write w => CarefulWrite s.now.ledger w
  | _ => True

/-- A statement succeeds and publishes what it owes, nothing else publishes, and a rollback takes
back what was published. -/
def Right (E : Engine) (s : Sys) : Action → Prop
  | .write w => ∃ published, s.call E (.write w) =
      .ok ⟨{ s.now.db with events := s.now.db.events ++ published }, s.now.ledger⟩ ∧
        published.Perm (s.now.ledger.due E w)
  | .rollback => ∀ s', s.step E .rollback = some s' → some s'.now = s.saved
  | a => ∀ s', s.step E a = some s' → s'.now.db.events = s.now.db.events

structure Inv (E : Engine) (s : Sys) : Prop where
  now : Kept E s.now
  saved : ∀ saved ∈ s.saved, Kept E saved

namespace Inv

variable {E : Engine} {s s' : Sys} {a : Action}

variable (h : Inv E s)
include h

theorem call_write {w : Write} (hw : CarefulWrite s.now.ledger w) :
    Right E s (.write w) := by
  obtain ⟨published, hwrite, hperm⟩ := h.now.write hw
  exact ⟨published, by rw [Sys.call, hwrite]; rfl, hperm⟩

variable (hok : Careful E s a)
include hok

theorem call {now : State} (hcall : s.call E a = .ok now) :
    Kept E now ∧ ((∀ w, a ≠ .write w) → now.db.events = s.now.db.events) := by
  cases a with
  | install table column =>
    simp only [Sys.call, Sys.alone] at hcall
    split_ifs at hcall
    cases hdb : Interests.install E s.now.db table column with
    | error e =>
      rw [hdb] at hcall
      cases hcall
    | ok db =>
      rw [hdb] at hcall
      cases hcall
      refine ⟨h.now.install hok.1 hok.2.1 hok.2.2 hdb, fun _ => ?_⟩
      obtain ⟨-, -, rfl⟩ := install_ok hdb
      rw [addTrigger_events, addTrigger_events]
  | uninstall table column =>
    simp only [Sys.call, Sys.alone] at hcall
    split_ifs at hcall
    cases hcall
    exact ⟨h.now.uninstall hok.1 hok.2, fun _ => rfl⟩
  | subscribe table column name channel vector maxDistance =>
    simp only [Sys.call] at hcall
    cases hi : newInterest E s.now.db table column name channel vector maxDistance with
    | error e =>
      rw [hi] at hcall
      cases hcall
    | ok i =>
      rw [hi] at hcall
      cases hcall
      exact ⟨h.now.subscribe (named_of_newInterest hok hi), fun _ => rfl⟩
  | unsubscribe table column name =>
    cases hcall
    exact ⟨h.now.unsubscribe hok column name, fun _ => rfl⟩
  | write w =>
    obtain ⟨published, hwrite, -⟩ := h.call_write hok
    rw [hwrite] at hcall
    cases hcall
    exact ⟨{ h.now with }, fun hne => absurd rfl (hne w)⟩
  | _ =>
    cases hcall
    exact ⟨h.now, fun _ => rfl⟩

theorem step (hstep : s.step E a = some s') : Inv E s' := by
  cases a with
  | begin =>
    simp only [Sys.step] at hstep
    split_ifs at hstep
    cases hstep
    refine ⟨h.now, ?_⟩
    rintro saved ⟨⟩
    exact h.now
  | commit =>
    obtain ⟨saved, -, rfl⟩ := Option.map_eq_some_iff.1 hstep
    exact ⟨h.now, nofun⟩
  | rollback =>
    obtain ⟨saved, hsaved, rfl⟩ := Option.map_eq_some_iff.1 hstep
    exact ⟨h.saved saved hsaved, nofun⟩
  | _ =>
    cases hstep
    unfold Sys.after
    split
    · next now hcall => exact ⟨(h.call hok hcall).1, h.saved⟩
    · exact h

theorem right : Right E s a := by
  cases a with
  | write w => exact h.call_write hok
  | begin =>
    intro s' hstep
    simp only [Sys.step] at hstep
    split_ifs at hstep
    cases hstep
    rfl
  | commit =>
    intro s' hstep
    obtain ⟨saved, -, rfl⟩ := Option.map_eq_some_iff.1 hstep
    rfl
  | rollback =>
    intro s' hstep
    obtain ⟨saved, hsaved, rfl⟩ := Option.map_eq_some_iff.1 hstep
    exact hsaved.symm
  | _ =>
    intro s' hstep
    cases hstep
    unfold Sys.after
    split
    · next now hcall => exact (h.call hok hcall).2 nofun
    · rfl

end Inv

section Example

instance (l : Ledger) (w : Write) : Decidable (CarefulWrite l w) :=
  inferInstanceAs (Decidable (∀ change ∈ w.changes, ∀ i ∈ l.interests, _ → _ →
    ∀ v ∈ change.given i.col, _))

instance (E : Engine) (s : Sys) : (a : Action) → Decidable (Careful E s a)
  | .install _ _ => inferInstanceAs (Decidable (_ ∧ _))
  | .uninstall _ _ => inferInstanceAs (Decidable (_ ∧ _))
  | .subscribe table _ _ _ _ _ => inferInstanceAs (Decidable (Spelled E table))
  | .unsubscribe table _ _ => inferInstanceAs (Decidable (Spelled E table))
  | .write w => inferInstanceAs (Decidable (CarefulWrite s.now.ledger w))
  | .begin => isTrue trivial
  | .commit => isTrue trivial
  | .rollback => isTrue trivial

/-- The number one, as a vector of one dimension. -/
def one : VectorType → List UInt8
  | .float32 => [0, 0, 128, 63]
  | _ => [0, 0, 0, 0, 0, 0, 240, 63, 2]

/-- Two tables whose columns share the names of their triggers. -/
def twoTables : Engine where
  tables := [⟨"a_b", [("c", "FLOAT32(1)")], false⟩, ⟨"a", [("b_c", "FLOAT64(1)")], false⟩]
  isFloat _ := true
  construct type _ := some (one type)
  cosine _ blob₁ blob₂ := if blob₁ = blob₂ then some 0 else some 1

/-- A blob is inserted into a column of a table. -/
def inserted (table : String) (rowid : Int64) (blob : List UInt8) : Write where
  table := table
  inserts := true
  sets := []
  changes := [⟨rowid, none, some fun _ => .blob blob⟩]
  kept := by simp

/-- An interest in the first table, with a row that is rolled back and one that is not. -/
def watchedOnce : List Action :=
  [.install "a_b" "c", .subscribe "a_b" "c" "near" "news" "[1]" 1, .begin,
    .write (inserted "a_b" 1 (one .float32)), .rollback, .write (inserted "a_b" 2 (one .float32)),
    .uninstall "a_b" "c", .write (inserted "a_b" 3 (one .float32))]

/-- An interest in the second table, after the first one is watched or not. -/
def watchedSecond (both : Bool) : List Action :=
  (if both then [.install "a_b" "c"] else []) ++
    [.install "a" "b_c", .subscribe "a" "b_c" "near" "news" "[1]" 1]

/-- A column of vectors with the name `rowid`. -/
def ownRowid : Engine := { twoTables with tables := [⟨"t", [("rowid", "FLOAT32(1)")], false⟩] }

theorem not_right_of_fails {E : Engine} {s : Sys} {w : Write}
    (h : (s.call E (.write w)).toOption.isSome = false) : ¬ Right E s (.write w) := by
  rintro ⟨published, hwrite, -⟩
  rw [hwrite] at h
  cases h

end Example

end SqlAnywhere.Interests
