import SqlAnywhere.Merge3.Database

/-!
# Merging again

Running an applied merge once more, with the same base and branch, finds nothing to write: what
the first run wrote both sides now agree on, conflicts kept for main are reported again, and
conflicts taken from the branch are agreed on too.  The exception is a row that the first run
wrote and then lost to a row it took from the branch.

* `applyRows_again_iff` — one table
* `merge_again_iff_lasting` — the whole database
-/

namespace SqlAnywhere

open List Option

section OneTable

variable {E : Engine} {name : String} {b r m t : Table} {on : OnConflict} {k : List Value}
  {row : RowDiff} {cols : List Column} {key : List String} {x : Option Row}

/-! ### The second comparison -/

theorem getLast?_rowDiffs_concat {o : Option Row}
    {as : List Row} {n : Row} {d : RowDiff} (h : rowDiff E key cols o (some n) = some d) :
    (rowDiffs E key cols o (as ++ [n])).getLast? = some d := by
  rw [rowDiffs, if_neg (by simp), filterMap_append]
  simp [h]

/-! ### The second plan of a table -/

/-- The values of a merged row are those of the two sides. -/
theorem Comparable.plain_mergedAt (h : Comparable b r m) (take : Bool) (k : List Value) (y : Row)
    (hy : mergedAt take b r m k = some y) : Plain y := by
  intro c
  rcases ThreeWay.apply_of_merge hy c with ⟨r', hr, heq⟩ | ⟨m', hm, heq⟩
  · exact heq ▸ Table.plain_row? h.branch_plain r' hr c
  · exact heq ▸ Table.plain_row? h.main_plain m' hm c

/-- No row that the branch changed and main had not changed otherwise is in the way of a row taken
from the branch. -/
def Lasting (on : OnConflict) (b r m : Table) : Prop :=
  on = .takeBranch → ∀ k x k' y, r.row? k ≠ b.row? k → ¬ ConflictAt b r m k →
    mergedAt true b r m k = some x → ConflictAt b r m k' → r.row? k' = some y →
      m.violates y x = false

theorem violates_eq (hc : r.columns = m.columns) (hu : r.unique = m.unique) (x y : Row) :
    r.violates x y = m.violates x y := by
  have hk : r.key = m.key := by rw [Table.key, Table.key, hc]
  simp only [Table.violates, Table.clash, hk, hu, hc]

theorem branch_free (h : Comparable b r m) (hr : r.Consistent) (hu : r.unique = m.unique)
    {k k' : List Value} {x y : Row} (hne : k ≠ k') (hx : r.row? k = some x)
    (hy : r.row? k' = some y) : m.violates y x = false := by
  rw [← violates_eq (h.branch_columns.trans h.main_columns.symm) hu]
  have hexact : Exact r.columns := by rw [h.branch_columns]; exact h.exact
  refine violates_of_rowsAt (m := r) hexact hr (Ne.symm hne) ?_ ?_
  · change y ∈ r.rowsAt k'
    rw [Table.rowsAt_of_distinct h.branch_distinct, hy]
    simp
  · change x ∈ r.rowsAt k
    rw [Table.rowsAt_of_distinct h.branch_distinct, hx]
    simp

theorem judge_again (take : Bool) (h : Comparable b r m) (ht : t.columns = b.columns)
    (hrow : row ∈ diffRows E b r) (hx : t.rowsAt row.key = x.toList)
    (hplain : ∀ y, x = some y → Plain y)
    (hc : ¬ ThreeWay.Conflict (b.row? row.key) (r.row? row.key) x)
    (hmerge : ThreeWay.merge take (b.row? row.key) (r.row? row.key) x = x) :
    judge row (byKey (tableDiff E name b t) row.key) = .agreed :=
  (h.judged_of_rowsAt take ht hx hplain hrow).agreed hc hmerge

theorem judge_self {o n : Option Row}
    (hon : AgreeOff cols o n) (hn : ∀ x, n = some x → Plain x)
    (hrow : rowDiff E key cols o n = some row) :
    judge row (some row) = .agreed := by
  have hnn : AgreeOff cols n n := by
    intro x y hx hy
    obtain rfl := some.inj (hx.symm.trans hy)
    exact ⟨fun _ _ => rfl, hn x hx, hn x hx⟩
  rw [← hrow]
  exact (judge_spec true hon hon hnn hrow).agreed ThreeWay.not_conflict_self_right
    ThreeWay.merge_self

/-- After a conflict was taken both sides agree, also where main's row could not be replaced. -/
theorem judge_taken (h : Comparable b r m) (ht : t.columns = b.columns)
    (hrow : row ∈ diffRows E b r) {xs : List Row}
    (hrows : t.rowsAt row.key = xs ++ (r.row? row.key).toList)
    (hdel : r.row? row.key = none → xs = []) :
    judge row (byKey (tableDiff E name b t) row.key) = .agreed := by
  cases hr : r.row? row.key with
  | none =>
    have hx : t.rowsAt row.key = (none : Option Row).toList := by rw [hrows, hdel hr, hr]; rfl
    refine judge_again true h ht hrow hx nofun ?_ ?_
    · rw [hr]; exact ThreeWay.not_conflict_self_right
    · rw [hr]; exact ThreeWay.merge_self
  | some y =>
    have hdiff := h.mem_ours.1 hrow
    have hby : byKey (tableDiff E name b t) row.key = some row := by
      rw [byKey_eq, tableDiff, fiber_diffRows h.exact ht h.base_distinct, hrows, hr]
      rw [hr] at hdiff
      exact getLast?_rowDiffs_concat hdiff
    rw [hby]
    exact judge_self h.agreeOff_branch (Table.plain_row? h.branch_plain) hdiff

/-- Where a changed row was lost to a taken one, the second plan has something to say about it. -/
theorem judge_lost (h : Comparable b r m) (ht : t.columns = b.columns)
    (hrow : row ∈ diffRows E b r) (hnone : t.rowsAt row.key = []) (hr : r.row? row.key ≠ none) :
    judge row (byKey (tableDiff E name b t) row.key) ≠ .agreed := by
  have hx : t.rowsAt row.key = (none : Option Row).toList := hnone
  intro hj
  rcases h.judged_of_rowsAt true ht hx nofun hrow with
    ⟨-, hc, hmerge⟩ | ⟨d, hj', -⟩ | ⟨main, hj', -⟩
  · rcases ThreeWay.cases_of_not_conflict hc with hb | hb | hb | ⟨b', r', m', -, -, hm, -⟩
    · exact h.ne_of_mem_ours hrow hb
    · rw [← hb, ThreeWay.merge_base_right] at hmerge
      exact hr hmerge
    · exact hr hb
    · cases hm
  · cases hj.symm.trans hj'
  · cases hj.symm.trans hj'

theorem plan_of_agreed (hall : ∀ row ∈ diffRows E b r,
      judge row (byKey (tableDiff E name b t) row.key) = .agreed) :
    (tablePlan E name b r t).changes = [] ∧ (tablePlan E name b r t).conflicts = [] := by
  refine ⟨filterMap_eq_nil_iff.2 fun row hrow => ?_,
    filterMap_eq_nil_iff.2 fun row hrow => ?_⟩
  · exact congrArg Verdict.change? (hall row hrow)
  · exact congrArg Verdict.conflict? (hall row hrow)

theorem agreed_of_plan (hch : (tablePlan E name b r t).changes = [])
    (hco : (tablePlan E name b r t).conflicts = []) (hrow : row ∈ diffRows E b r) :
    judge row (byKey (tableDiff E name b t) row.key) = .agreed := by
  have h₁ := filterMap_eq_nil_iff.1 hch row hrow
  have h₂ := filterMap_eq_nil_iff.1 hco row hrow
  cases hj : judge row (byKey (tableDiff E name b t) row.key) with
  | agreed => rfl
  | change d =>
    rw [hj] at h₁
    cases h₁
  | conflict c =>
    rw [hj] at h₂
    cases h₂

/-- **One table, merged again**: no change is planned and the conflicts are those kept for main,
exactly when what the branch changed lasts. -/
theorem applyRows_again_iff (h : Comparable b r m) (hm : m.Consistent) (hr : r.Consistent)
    (hu : r.unique = m.unique)
    (hrun : applyRows (applyFor name r) on (tablePlan E name b r m) m = .ok t) :
    ((tablePlan E name b r t).changes = [] ∧ (tablePlan E name b r t).conflicts =
      if on = .takeBranch then [] else (tablePlan E name b r m).conflicts) ↔ Lasting on b r m := by
  obtain ⟨rows, rfl, -⟩ := applyRows_shape h hm hrun
  have ht : (m.withRows rows).columns = b.columns := h.main_columns
  by_cases hon : on = .takeBranch
  · subst hon
    rw [if_pos rfl]
    have hrows := h.rowsAt_of_take hrun fun k k' x y hne _ _ hx hy => branch_free h hr hu hne hx hy
    constructor
    · rintro ⟨hch, hco⟩ - k x k' y hne hk hx hk' hy
      by_contra hviol
      obtain ⟨row, hrow, rfl⟩ := h.exists_ours E hne
      obtain ⟨c, hc, rfl⟩ := h.exists_mem_conflicts E name hk'
      have hremoves : (applyFor name r).removes m c row.key x = true := by
        unfold Apply.removes
        rw [show (applyFor name r).branch.row? c.branch.key = some y from hy]
        simpa using hviol
      have hgone : (m.withRows rows).rowsAt row.key = [] := by
        rw [(hrows row.key).2 hk, hx, filter_eq_nil_iff]
        intro x' hx'
        obtain rfl : x' = x := by simpa using hx'
        simpa [stays] using ⟨c, hc, hremoves⟩
      exact judge_lost h ht hrow hgone (ThreeWay.branch_ne_none hk hne (by
        rw [show ThreeWay.merge true _ _ _ = some x from hx]; simp)) (agreed_of_plan hch hco hrow)
    · intro hlast
      refine plan_of_agreed fun row hrow => ?_
      by_cases hk : ConflictAt b r m row.key
      · refine judge_taken h ht hrow ((hrows row.key).1 hk) fun hnone => ?_
        exact h.filter_stays_replaced
          (fun _ _ _ _ _ hy => by rw [hnone] at hy; cases hy) hk
      · have hx : (m.withRows rows).rowsAt row.key = (mergedAt true b r m row.key).toList := by
          rw [(hrows row.key).2 hk]
          exact h.filter_stays_of_free hk fun x hx k' y hk' hy =>
            hlast rfl row.key x k' y (h.ne_of_mem_ours hrow) hk (mem_toList.1 hx) hk' hy
        exact judge_again true h ht hrow hx (h.plain_mergedAt true _) (ThreeWay.not_conflict_merge hk)
          (ThreeWay.merge_merge hk)
  · rw [if_neg hon]
    refine iff_of_true ?_ fun hon' => absurd hon' hon
    have hverdict : ∀ row ∈ diffRows E b r,
        (judge row (byKey (tableDiff E name b (m.withRows rows)) row.key)).change? = none ∧
        (judge row (byKey (tableDiff E name b (m.withRows rows)) row.key)).conflict? =
          (judge row (byKey (tableDiff E name b m) row.key)).conflict? := by
      intro row hrow
      have hx := h.rowsAt_of_keep hon hrun row.key
      rcases h.judged false hrow with ⟨hj, hk, -⟩ | ⟨d, hj, -, hk, -⟩ | ⟨main, hj, hmain, hk⟩
      · rw [judge_again false h ht hrow hx (h.plain_mergedAt false _) (ThreeWay.not_conflict_merge hk)
          (ThreeWay.merge_merge hk), hj]
        exact ⟨rfl, rfl⟩
      · rw [judge_again false h ht hrow hx (h.plain_mergedAt false _) (ThreeWay.not_conflict_merge hk)
          (ThreeWay.merge_merge hk), hj]
        exact ⟨rfl, rfl⟩
      · -- main kept its row, so the second comparison is the first
        rw [mergedAt_of_conflict hk, if_neg (by simp)] at hx
        have hfirst : byKey (tableDiff E name b m) row.key =
            rowDiff E b.key b.columns (b.row? row.key) (m.row? row.key) := h.byKey_theirs
        rw [h.byKey_of_rowsAt ht hx, ← hfirst, hj]
        exact ⟨rfl, rfl⟩
    refine ⟨filterMap_eq_nil_iff.2 fun row hrow => (hverdict row hrow).1, ?_⟩
    exact filterMap_congr fun row hrow => (hverdict row hrow).2

end OneTable

namespace Merge3

variable {M : Merge3} {E : Engine} {base branch main main' : Db} {name : String}
  {files : String → Option Db} {plan : Plan}

/-- A second run, on what the first one left, plans no change, changes nothing, and reports the
first run's conflicts if they were kept for main and none if they were taken from the branch. -/
def Settled (M : Merge3) (E : Engine) (files : String → Option Db) (plan : Plan) (main' : Db) :
    Prop :=
  ∃ plan', M.merge E files main' = (.ok (.applied plan'), main') ∧ plan'.changes = 0 ∧
    plan'.reported = if M.onConflict = .takeBranch then [] else plan.reported

/-- The tables of the branch obey the same UNIQUE constraints as main's. -/
def SameConstraints (M : Merge3) (branch main : Db) : Prop :=
  ∀ name r t, name ∈ M.tables main → branch.lookup name = some r → main.lookup name = some t →
    t.Consistent ∧ r.Consistent ∧ r.unique = t.unique

theorem applyTable_nothing {c : Conn} {tp : TablePlan} {r : Table}
    (hr : (c .branch).lookup tp.table = some r) (hch : tp.changes = [])
    (hco : M.onConflict = .takeBranch → tp.conflicts = []) :
    M.applyTable E c main tp = .ok main := by
  simp only [applyTable, hr, hch]
  split_ifs with hon
  · rw [hco hon]
    rfl
  · rfl

theorem sameTables_applied (hq : E.Quiet) (hs : M.SameSchema base branch main)
    (hc : M.SameConstraints branch main)
    (hrun : (M.planOf E base branch main).tables.foldlM (M.applyTable E (attach base branch main))
      main = .ok main') : M.SameTables base branch main' := by
  obtain ⟨htables, hothers⟩ := applied_lookup hq hrun
  have hshape : ∀ name t, name ∈ M.tables base → main.lookup name = some t →
      ∃ rows, main'.lookup name = some (t.withRows rows) := by
    intro name t hn ht
    obtain ⟨b, r, t₀, hb, hr, ht₀, -⟩ := hs.lookups hn
    obtain rfl := some.inj (ht₀.symm.trans ht)
    obtain ⟨t', hrows, ht'⟩ := htables name b r t₀ hn hb hr ht
    obtain ⟨rows, rfl, -⟩ := applyRows_shape (hs.comparable name b r t₀ hn hb hr ht)
      (hc name r t₀ ((hs.main_tables name).2 hn) hr ht).1 hrows
    exact ⟨rows, ht'⟩
  refine ⟨hs.branch_tables, fun name => ?_, fun name b r t' hn hb hr ht' => ?_⟩
  · by_cases hn : name ∈ M.tables base
    · obtain ⟨t, ht, htype, hpart⟩ := mem_tables.1 ((hs.main_tables name).2 hn)
      obtain ⟨rows, hrows⟩ := hshape name t hn ht
      exact iff_of_true (mem_tables.2 ⟨_, hrows, htype, hpart⟩) hn
    · refine iff_of_false (fun hn' => hn ?_) hn
      obtain ⟨t, ht, htype, hpart⟩ := mem_tables.1 hn'
      rw [hothers name hn] at ht
      exact (hs.main_tables name).1 (mem_tables.2 ⟨t, ht, htype, hpart⟩)
  · obtain ⟨b₀, r₀, t, hb₀, hr₀, ht, hrc, htc⟩ := hs.lookups hn
    obtain ⟨rows, hrows⟩ := hshape name t hn ht
    obtain rfl := some.inj (hb₀.symm.trans hb)
    obtain rfl := some.inj (hr₀.symm.trans hr)
    rw [← some.inj (hrows.symm.trans ht')]
    exact ⟨hrc, htc⟩

/-- The second plan of one table. -/
def SettledTable (on : OnConflict) (E : Engine) (name : String) (b r t t' : Table) : Prop :=
  (tablePlan E name b r t').changes = [] ∧ (tablePlan E name b r t').conflicts =
    if on = .takeBranch then [] else (tablePlan E name b r t).conflicts

theorem mem_planOf {tp : TablePlan} (htp : tp ∈ (M.planOf E base branch main).tables) :
    ∃ name ∈ M.tables base, ∃ b r t, base.lookup name = some b ∧ branch.lookup name = some r ∧
      main.lookup name = some t ∧ tp = tablePlan E name b r t := by
  obtain ⟨name, hn, hentry⟩ := mem_filterMap.1 htp
  exact ⟨name, hn, entry_some hentry⟩

theorem reported_planOf : (M.planOf E base branch main).reported =
    (M.tables base).flatMap (fun name => (entry E base branch main name).toList.flatMap
      (fun tp => tp.conflicts.map (fun c => (tp.table, c)))) := by
  rw [Plan.reported, planOf, filterMap_eq_flatMap_toList, flatMap_assoc]

/-- The second plan as a whole, when each table's is settled. -/
theorem settled_planOf (hs : M.SameTables base branch main) (hs' : M.SameTables base branch main')
    (hall : ∀ name b r t t', name ∈ M.tables base → base.lookup name = some b →
      branch.lookup name = some r → main.lookup name = some t → main'.lookup name = some t' →
        SettledTable M.onConflict E name b r t t') :
    (∀ tp ∈ (M.planOf E base branch main').tables, tp.changes = [] ∧
      (M.onConflict = .takeBranch → tp.conflicts = [])) ∧ (M.planOf E base branch main').reported =
      if M.onConflict = .takeBranch then [] else (M.planOf E base branch main).reported := by
  have htp : ∀ tp ∈ (M.planOf E base branch main').tables, tp.changes = [] ∧
      (M.onConflict = .takeBranch → tp.conflicts = []) := by
    intro tp htp
    obtain ⟨name, hn, b, r, t', hb, hr, ht', rfl⟩ := mem_planOf htp
    obtain ⟨-, -, t, -, -, ht, -⟩ := hs.lookups hn
    obtain ⟨hch, hco⟩ := hall name b r t t' hn hb hr ht ht'
    exact ⟨hch, fun hon => by rw [hco, if_pos hon]⟩
  refine ⟨htp, ?_⟩
  split_ifs with hon
  · refine flatMap_eq_nil_iff.2 fun tp hmem => ?_
    rw [(htp tp hmem).2 hon, map_nil]
  · rw [reported_planOf, reported_planOf]
    refine flatMap_congr fun name hn => ?_
    obtain ⟨b, r, t, hb, hr, ht, -⟩ := hs.lookups hn
    obtain ⟨-, -, t', -, -, ht', -⟩ := hs'.lookups hn
    have hco := (hall name b r t t' hn hb hr ht ht').2
    rw [if_neg hon] at hco
    rw [entry_of_lookups hb hr ht, entry_of_lookups hb hr ht']
    split_ifs
    · rfl
    · simp only [toList_some, flatMap_cons, flatMap_nil, hco]
      rfl

theorem settledTable_of_planOf {b r t t' : Table} (hon : M.onConflict = .takeBranch)
    (hn : name ∈ M.tables base) (hb : base.lookup name = some b) (hr : branch.lookup name = some r)
    (ht' : main'.lookup name = some t') (hzero : (M.planOf E base branch main').changes = 0)
    (hrep : (M.planOf E base branch main').reported = []) :
    SettledTable M.onConflict E name b r t t' := by
  have hentry := entry_of_lookups (E := E) hb hr ht'
  by_cases hempty : (diffRows E b r).isEmpty = true
  · have hrows : (tableDiff E name b r).rows = [] := isEmpty_iff.1 hempty
    rw [SettledTable, if_pos hon, tablePlan, threeWay, hrows]
    exact ⟨rfl, rfl⟩
  · rw [if_neg hempty] at hentry
    have hmem : tablePlan E name b r t' ∈ (M.planOf E base branch main').tables :=
      mem_filterMap.2 ⟨name, hn, hentry⟩
    refine ⟨?_, ?_⟩
    · exact Plan.changes_eq_zero.1 hzero _ hmem
    · rw [if_pos hon]
      exact map_eq_nil_iff.1 (flatMap_eq_nil_iff.1 hrep _ hmem)

theorem sameConstraints_onlyT {r t : Table} (ht : t.Consistent) (hr : r.Consistent)
    (hu : r.unique = t.unique) : M.SameConstraints (onlyT r) (onlyT t) := by
  intro name r' t' hn hr' ht'
  obtain rfl := mem_tables_onlyT hn
  rw [lookup_onlyT, if_pos rfl, some.injEq] at hr' ht'
  subst hr' ht'
  exact ⟨ht, hr, hu⟩

/-- The branch moved row `1` to `u = 5` and edited `v` in both rows; main edited `v` in row `1`
and moved row `2` to `u = 5`. -/
def lostFiles : String → Option Db := fun file =>
  if file = "base" then some (onlyT (kuvTable [kuvRow 1 1 0, kuvRow 2 2 0]))
  else some (onlyT (kuvTable [kuvRow 1 5 1, kuvRow 2 2 7]))

def lostMain : Table := kuvTable [kuvRow 1 1 2, kuvRow 2 5 0]

end Merge3

end SqlAnywhere
