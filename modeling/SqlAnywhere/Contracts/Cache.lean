import Mathlib.Data.Int.Notation
import SqlAnywhere.Lib.RowTable
import SqlAnywhere.Lib.Run

/-!
# The cache contract

The statements of the cache contract (`contracts.rs`), each at the time `unixepoch()` gave it.  What
an integer cast and an addition make of a stored value is a parameter.

* `lock_excludes` — a lock keeps other owners out until it expires or is given back
* `swept_results` — which runs have the same results with sweeps
-/

namespace SqlAnywhere.Cache

open List Option

/-- A stored value: a blob from `set`, the text of an owner, or a number from `increment`. -/
inductive Value
  | blob (bytes : List UInt8)
  | text (text : String)
  | integer (n : ℤ)
  | real (bits : UInt64)
  deriving DecidableEq

/-- `CAST(value AS INTEGER)`, and that cast with `:delta` added. -/
structure Engine where
  cast : Value → ℤ
  plus : Value → ℤ → Value

/-- A row of `askr_cache` without its key. -/
structure Row where
  value : Value
  expiresAt : Option ℤ
  deriving DecidableEq

/-- `expires_at IS NOT NULL AND expires_at <= unixepoch()`. -/
def Row.expired (now : ℤ) (r : Row) : Bool := r.expiresAt.any (· ≤ now)

/-- `askr_cache`, and the pairs of a tag and a key in `askr_cache_tags`. -/
structure Db where
  rows : RowTable String Row
  tags : List (String × String)

/-- A statement with its parameters. -/
inductive Op
  | set (key : String) (value : List UInt8) (expiresAt : Option ℤ)
  | get (key : String)
  | forget (key : String)
  | flush
  | increment (key : String) (delta : ℤ) (expiresAt : Option ℤ)
  | lock (key owner : String) (ttl : ℤ)
  | unlock (key owner : String)
  | tag (tag key : String)
  | invalidateTag (tag : String)
  | sweep
  deriving DecidableEq

/-- The statements about locks. -/
def Op.locks : Op → Bool
  | .lock .. | .unlock .. | .sweep => true
  | _ => false

/-- What a statement returns. -/
inductive Result
  | changed (rows : ℕ)
  | value (value : Option Value)
  | count (n : ℤ)
  | acquired (row : Option Bool)
  deriving DecidableEq

namespace Db

variable (E : Engine)

def put (db : Db) (key : String) (r : Row) : Db := { db with rows := db.rows.put key r }

/-- `DELETE FROM askr_cache` for the rows that meet a condition, with their number. -/
def deleteWhere (db : Db) (cond : String → Row → Bool) : Db × ℕ :=
  let keys := db.rows.rowids.filter fun key => (db.rows.get key).any (cond key)
  ({ db with rows := keys.foldl RowTable.erase db.rows }, keys.length)

/-- The statement at the time `now`. -/
def exec (now : ℤ) (db : Db) : Op → Db × Result
  | .set key value expiresAt => (db.put key ⟨.blob value, expiresAt⟩, .changed 1)
  | .get key =>
    (db, .value (((db.rows.get key).filter fun r => !r.expired now).map (·.value)))
  | .forget key => (db.deleteWhere fun k _ => k = key).map id .changed
  | .flush => (db.deleteWhere fun _ _ => true).map id .changed
  | .increment key delta expiresAt =>
    let row : Row := match db.rows.get key with
      | none => ⟨.integer delta, expiresAt⟩
      -- the update leaves `expires_at` as it is
      | some r => ⟨E.plus (if r.expired now then .integer 0 else r.value) delta, r.expiresAt⟩
    (db.put key row, .count (E.cast row.value))
  | .lock key owner ttl =>
    if (db.rows.get key).all (Row.expired now) then
      (db.put key ⟨.text owner, some (now + ttl)⟩, .acquired (some true))
    else (db, .acquired none)
  | .unlock key owner =>
    (db.deleteWhere fun k r => k = key ∧ r.value = .text owner).map id .changed
  | .tag tag key =>
    if (tag, key) ∈ db.tags then (db, .changed 0)
    else ({ db with tags := (tag, key) :: db.tags }, .changed 1)
  | .invalidateTag tag =>
    -- the two statements of one transaction, whose changes are added
    let deleted := db.deleteWhere fun k _ => (tag, k) ∈ db.tags
    let rest := db.tags.filter fun p => p.1 ≠ tag
    ({ deleted.1 with tags := rest }, .changed (deleted.2 + (db.tags.length - rest.length)))
  | .sweep => (db.deleteWhere fun _ r => r.expired now).map id .changed

/-- The tables after a run. -/
def after (db : Db) (run : List (ℤ × Op)) : Db := run.foldl (fun db e => (db.exec E e.1 e.2).1) db

/-- The tables before the first statement. -/
def empty : Db := ⟨.empty, []⟩

variable {E} {db : Db} {now : ℤ} {cond : String → Row → Bool}

theorem get_deleteWhere (cond : String → Row → Bool) (key : String) :
    (db.deleteWhere cond).1.rows.get key =
      (db.rows.get key).filter fun r => !cond key r := by
  simp only [deleteWhere, RowTable.get_foldl_erase, mem_filter, db.rows.mem_iff]
  cases db.rows.get key with
  | none => simp
  | some r => cases h : cond key r <;> simp [Option.filter, h]

theorem get_put (key k : String) (r : Row) :
    (db.put key r).rows.get k = if k = key then some r else db.rows.get k :=
  RowTable.get_put ..

theorem deleteWhere_of_false
    (h : ∀ key r, db.rows.get key = some r → cond key r = false) :
    db.deleteWhere cond = (db, 0) := by
  have hkeys : db.rows.rowids.filter (fun key => (db.rows.get key).any (cond key)) = [] := by
    refine filter_eq_nil_iff.2 fun key _ => ?_
    cases hget : db.rows.get key with
    | none => simp
    | some r => simp [h key r hget]
  simp only [deleteWhere, hkeys, foldl_nil, length_nil]

/-! ### Locks -/

theorem get_locked {key owner : String} {expires : ℤ}
    (h : db.rows.get key = some ⟨.text owner, some expires⟩) {op : Op} (hlocks : op.locks = true)
    (hop : op ≠ .unlock key owner) (hnow : now < expires) :
    (db.exec E now op).1.rows.get key = some ⟨.text owner, some expires⟩ := by
  have hlive : ¬ expires ≤ now := by omega
  cases op with
  | lock k o ttl =>
    simp only [exec]
    split_ifs with hall
    · rw [get_put, if_neg, h]
      rintro rfl
      simp [h, Row.expired, hlive] at hall
    · exact h
  | unlock k o =>
    have hne : decide (key = k ∧ Value.text owner = .text o) = false := by
      rw [decide_eq_false_iff_not]
      rintro ⟨rfl, howner⟩
      exact hop (by rw [Value.text.inj howner])
    simp only [exec, Prod.map_fst, id_eq, get_deleteWhere, h, filter_some, hne]
    rfl
  | sweep => simp [exec, get_deleteWhere, h, Row.expired, hlive]
  | _ => cases hlocks

/-- **Locks exclude**: from an owner's lock to its expiry, if the owner does not unlock, no lock of
another owner succeeds and no unlock of another owner changes anything. -/
theorem lock_excludes (db : Db) (key owner : String) (t ttl : ℤ)
    (hlock : (db.exec E t (.lock key owner ttl)).2 = .acquired (some true))
    (mid : List (ℤ × Op)) (now : ℤ) (hnow : now < t + ttl)
    (hmid : ∀ e ∈ mid, e.1 ≤ now ∧ e.2.locks = true ∧ e.2 ≠ .unlock key owner)
    (other : String) (hother : other ≠ owner) (ttl' : ℤ) :
    let db' := (db.exec E t (.lock key owner ttl)).1.after E mid
    (db'.exec E now (.lock key other ttl')).2 = .acquired none ∧
      (db'.exec E now (.unlock key other)).2 = .changed 0 ∧
      (db'.exec E now (.unlock key other)).1 = db' := by
  have hrun : ∀ (db : Db), db.rows.get key = some ⟨.text owner, some (t + ttl)⟩ →
      (db.after E mid).rows.get key = some ⟨.text owner, some (t + ttl)⟩ := by
    induction mid with
    | nil => exact fun _ h => h
    | cons e mid ih =>
      intro db h
      obtain ⟨⟨hle, hlocks, hop⟩, hrest⟩ := List.forall_mem_cons.1 hmid
      exact ih hrest _ (get_locked h hlocks hop (by omega))
  have hget := hrun (db.exec E t (.lock key owner ttl)).1 (by
    simp only [exec] at hlock ⊢
    split_ifs at hlock ⊢
    · simp [get_put]
    · cases hlock)
  generalize (db.exec E t (.lock key owner ttl)).1.after E mid = db' at hget
  have hunlock : db'.exec E now (.unlock key other) = (db', .changed 0) := by
    refine congrArg (Prod.map id Result.changed) (deleteWhere_of_false fun k r hr => ?_)
    rw [decide_eq_false_iff_not]
    rintro ⟨rfl, hvalue⟩
    cases hget.symm.trans hr
    exact hother (Value.text.inj hvalue).symm
  have hlive : ¬ t + ttl ≤ now := by omega
  refine ⟨?_, congrArg Prod.snd hunlock, congrArg Prod.fst hunlock⟩
  simp [exec, hget, Row.expired, hlive]

/-- Only numbers are cast and added to. -/
def integers : Engine where
  cast
    | .integer n => n
    | _ => 0
  plus
    | .integer n, delta => .integer (n + delta)
    | _, delta => .integer delta

theorem lock_excludes_swept :
    (((empty.exec integers 0 (.lock "k" "a" 9)).1.after integers
      [(3, .sweep), (4, .lock "k" "b" 5)]).exec integers 5 (.lock "k" "b" 5)).2 = .acquired none :=
  (lock_excludes empty "k" "a" 0 9 rfl [(3, .sweep), (4, .lock "k" "b" 5)] 5 (by decide)
    (by decide) "b" (by decide) 5).1

/-! ### Sweeps -/

/-- The rows that a statement counts as its own although they have expired. -/
def touches (db : Db) : Op → String → Row → Bool
  | .forget k, key, _ | .increment k _ _, key, _ => key = k
  | .flush, _, _ => true
  | .unlock k owner, key, r => key = k ∧ r.value = .text owner
  | .invalidateTag tag, key, _ => (tag, key) ∈ db.tags
  | _, _, _ => false

/-- A statement that meets no expired row of its own. -/
def Careful (db : Db) (e : ℤ × Op) : Prop :=
  ∀ key r, db.rows.get key = some r → db.touches e.2 key r = true → r.expired e.1 = false

/-- The tables `a` are the tables `b` without some rows that have expired. -/
structure Swept (now : ℤ) (a b : Db) : Prop where
  tags : a.tags = b.tags
  rows : ∀ key, a.rows.get key = b.rows.get key ∨
    a.rows.get key = none ∧ ∃ r, b.rows.get key = some r ∧ r.expired now = true

variable {a b : Db}

variable (h : Swept now a b)
include h

theorem Swept.mono {now' : ℤ} (hle : now ≤ now') : Swept now' a b := by
  refine ⟨h.tags, fun key => (h.rows key).imp_right ?_⟩
  rintro ⟨hnone, r, hr, hexpired⟩
  refine ⟨hnone, r, hr, ?_⟩
  simp only [Row.expired, Option.any_eq_true, decide_eq_true_eq] at hexpired ⊢
  obtain ⟨t, ht, hle'⟩ := hexpired
  exact ⟨t, ht, by omega⟩

theorem Swept.sweep : Swept now (a.exec E now .sweep).1 b := by
  refine ⟨h.tags, fun key => ?_⟩
  simp only [exec, Prod.map_fst, id_eq, get_deleteWhere]
  rcases h.rows key with heq | ⟨hnone, hr⟩
  · rw [heq]
    cases hb : b.rows.get key with
    | none => exact Or.inl rfl
    | some r => cases hexpired : r.expired now <;> simp [Option.filter, hexpired]
  · exact Or.inr ⟨by simp [hnone], hr⟩

theorem Swept.put (key : String) (r : Row) :
    Swept now (a.put key r) (b.put key r) := by
  refine ⟨h.tags, fun k => ?_⟩
  rw [get_put, get_put]
  split_ifs
  · exact Or.inl rfl
  · exact h.rows k

theorem Swept.deleteWhere
    (hcond : ∀ key r, b.rows.get key = some r → cond key r = true → r.expired now = false) :
    (a.deleteWhere cond).2 = (b.deleteWhere cond).2 ∧
      Swept now (a.deleteWhere cond).1 (b.deleteWhere cond).1 := by
  have hany : ∀ key, (a.rows.get key).any (cond key) = (b.rows.get key).any (cond key) := by
    intro key
    rcases h.rows key with heq | ⟨hnone, r, hr, hexpired⟩
    · rw [heq]
    · cases hc : cond key r with
      | false => simp [hnone, hr, hc]
      | true => cases (hcond key r hr hc).symm.trans hexpired
  refine ⟨List.Perm.length_eq ?_, h.tags, fun key => ?_⟩
  · refine (perm_ext_iff_of_nodup (a.rows.nodup.filter _) (b.rows.nodup.filter _)).2 ?_
    intro key
    simp only [mem_filter, RowTable.mem_iff]
    constructor
    · rintro ⟨-, ha⟩
      exact ⟨isSome_of_any (hany key ▸ ha), hany key ▸ ha⟩
    · rintro ⟨-, hb⟩
      exact ⟨isSome_of_any ((hany key).trans hb), (hany key).trans hb⟩
  · rw [get_deleteWhere, get_deleteWhere]
    rcases h.rows key with heq | ⟨hnone, r, hr, hexpired⟩
    · exact Or.inl (by rw [heq])
    refine Or.inr ⟨by simp [hnone], r, ?_, hexpired⟩
    have hc := hany key
    simp only [hnone, hr, any_none, any_some] at hc
    simp [hr, Option.filter, ← hc]

/-- A statement that meets no expired row of its own returns the same with and without sweeps. -/
theorem Swept.exec {op : Op} (hop : op ≠ .sweep) (hcareful : b.Careful (now, op)) :
    (a.exec E now op).2 = (b.exec E now op).2 ∧ Swept now (a.exec E now op).1 (b.exec E now op).1 := by
  cases op with
  | set key value expiresAt => exact ⟨rfl, h.put _ _⟩
  | get key =>
    refine ⟨congrArg Result.value ?_, h⟩
    rcases h.rows key with heq | ⟨hnone, r, hr, hexpired⟩
    · rw [heq]
    · simp [hnone, hr, Option.filter, hexpired]
  | forget | flush | unlock =>
    obtain ⟨hcount, hswept⟩ := h.deleteWhere hcareful
    exact ⟨congrArg Result.changed hcount, hswept⟩
  | increment key delta expiresAt =>
    have heq : a.rows.get key = b.rows.get key := by
      rcases h.rows key with heq | ⟨-, r, hr, hexpired⟩
      · exact heq
      · cases (hcareful key r hr (decide_eq_true rfl)).symm.trans hexpired
    simp only [Db.exec, heq]
    exact ⟨trivial, h.put _ _⟩
  | lock key owner ttl =>
    have hall : (a.rows.get key).all (Row.expired now) = (b.rows.get key).all (Row.expired now) := by
      rcases h.rows key with heq | ⟨hnone, r, hr, hexpired⟩
      · rw [heq]
      · simp [hnone, hr, hexpired]
    simp only [Db.exec, hall]
    split_ifs
    · exact ⟨rfl, h.put _ _⟩
    · exact ⟨rfl, h⟩
  | tag tag key =>
    simp only [Db.exec, h.tags]
    split_ifs
    · exact ⟨rfl, h⟩
    · exact ⟨rfl, rfl, h.rows⟩
  | invalidateTag tag =>
    obtain ⟨hcount, hswept⟩ := h.deleteWhere hcareful
    simp only [Db.exec, h.tags]
    exact ⟨congrArg (fun n => Result.changed (n + _)) hcount, rfl, hswept.rows⟩
  | sweep => exact absurd rfl hop

omit h

/-- What the statements of a run return, the sweeps apart. -/
def results (E : Engine) : Db → List (ℤ × Op) → List Result
  | _, [] => []
  | db, e :: run =>
    if e.2 = .sweep then results E (db.exec E e.1 e.2).1 run
    else (db.exec E e.1 e.2).2 :: results E (db.exec E e.1 e.2).1 run

/-- **Sweeps change nothing** in a run at a non-decreasing clock, if without them every statement
that deletes or increments meets no expired row of its own. -/
theorem swept_results (db : Db) (run : List (ℤ × Op)) (hclock : run.Pairwise (·.1 ≤ ·.1))
    (hcareful : Run.Along (fun db e => some (exec E e.1 db e.2).1) Careful db
      (run.filter (·.2 ≠ .sweep))) :
    results E db run = results E db (run.filter (·.2 ≠ .sweep)) := by
  -- for tables that some sweeps have been through, by induction on the run
  have hrun : ∀ a b now, Swept now a b → (∀ e ∈ run, now ≤ e.1) →
      Run.Along (fun db e => some (exec E e.1 db e.2).1) Careful b (run.filter (·.2 ≠ .sweep)) →
      results E a run = results E b (run.filter (·.2 ≠ .sweep)) := by
    clear hcareful
    induction run with
    | nil => exact fun _ _ _ _ _ _ => rfl
    | cons e run ih =>
      intro a b now h hnow hcareful
      obtain ⟨hfirst, hrest⟩ := List.pairwise_cons.1 hclock
      have h := h.mono (hnow e (List.mem_cons_self ..))
      by_cases hop : e.2 = .sweep
      · simp only [results, hop, List.filter_cons, ne_eq, not_true, decide_false, if_true] at hcareful ⊢
        exact ih hrest _ _ _ h.sweep hfirst hcareful
      · simp only [results, hop, List.filter_cons, ne_eq, not_false_iff, decide_true, if_true, if_false]
          at hcareful ⊢
        obtain ⟨hresult, h'⟩ := h.exec (E := E) hop hcareful.1
        exact List.cons_eq_cons.2 ⟨hresult, ih hrest _ _ _ h' hfirst (hcareful.2 _ rfl)⟩
  refine hrun db db ((run.map Prod.fst).headD 0) ⟨rfl, fun _ => Or.inl rfl⟩ ?_ hcareful
  cases run with
  | nil => simp
  | cons e run => simpa using (List.pairwise_cons.1 hclock).1

/-- A counter is incremented twice, with a sweep between. -/
def counter : List (ℤ × Op) :=
  [(0, .increment "k" 2 (some 9)), (1, .sweep), (2, .increment "k" 5 none), (3, .get "k")]

theorem swept_results_counter :
    results integers empty counter = [.count 2, .count 7, .value (some (.integer 7))] := by
  have hcareful : Run.Along (fun db e => some (exec integers e.1 db e.2).1) Careful empty
      (counter.filter (·.2 ≠ .sweep)) := by
    refine ⟨?_, fun s hs => ⟨?_, fun s _ => ⟨?_, fun _ _ => trivial⟩⟩⟩
    · intro key r hr
      cases hr
    · intro key r hr hkey
      cases hs
      cases of_decide_eq_true hkey
      cases hr
      rfl
    · intro key r _ hkey
      cases hkey
  exact (swept_results empty counter (by decide) hcareful).trans (by decide)

/-- **An increment keeps an expired row's expiry**: the counter that it starts is never read, unless
a sweep came before. -/
theorem expired_increment :
    results integers empty [(0, .set "k" [] (some 1)), (2, .increment "k" 5 none), (2, .get "k")] =
        [.changed 1, .count 5, .value none] ∧
      results integers empty [(0, .set "k" [] (some 1)), (2, .sweep), (2, .increment "k" 5 none),
        (2, .get "k")] = [.changed 1, .count 5, .value (some (.integer 5))] := by
  decide

end Db

end SqlAnywhere.Cache
