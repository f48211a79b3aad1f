import SqlAnywhere.Merge3.Correct

/-!
# Merging a database

The tables of a database are merged one after the other, and no table's statements touch another
table.  So an applied merge is a run of `applyRows` on every table that takes part
(`applied_lookup`), and the three-way merge of the database is that of its tables
(`merge_threeWay_iff_clear`).
-/

namespace SqlAnywhere.Merge3

open List Keyed

variable {M : Merge3} {E : Engine} {db base branch main main' : Db} {name : String} {b r t : Table}

theorem mem_tables : name ∈ M.tables db ↔
    ∃ t, db.lookup name = some t ∧ t.type = .table ∧ M.takesPart name = true := by
  rw [tables, mem_insertionSort, mem_filter]
  constructor
  · rintro ⟨-, hp⟩
    simp only [Bool.and_eq_true, Option.any_eq_true, decide_eq_true_eq] at hp
    obtain ⟨⟨t, ht, htype⟩, hpart⟩ := hp
    exact ⟨t, ht, htype, hpart⟩
  · rintro ⟨t, ht, htype, hpart⟩
    refine ⟨AList.mem_keys.1 (AList.lookup_isSome.1 (by rw [ht]; rfl)), ?_⟩
    simp [ht, htype, hpart]

theorem tables_nodup : (M.tables db).Nodup :=
  (perm_insertionSort _ _).nodup_iff.2 ((AList.keys_nodup db).filter _)

/-- The three databases have the same tables with the same columns, apart from those that do not
take part. -/
structure SameTables (M : Merge3) (base branch main : Db) : Prop where
  branch_tables : ∀ name, name ∈ M.tables branch ↔ name ∈ M.tables base
  main_tables : ∀ name, name ∈ M.tables main ↔ name ∈ M.tables base
  columns : ∀ name b r t, name ∈ M.tables base → base.lookup name = some b →
    branch.lookup name = some r → main.lookup name = some t →
      r.columns = b.columns ∧ t.columns = b.columns

/-- The tables that take part can be compared as well. -/
structure SameSchema (M : Merge3) (base branch main : Db) : Prop
    extends M.SameTables base branch main where
  comparable : ∀ name b r t, name ∈ M.tables base → base.lookup name = some b →
    branch.lookup name = some r → main.lookup name = some t → Comparable b r t

theorem SameTables.lookups (h : M.SameTables base branch main) (hn : name ∈ M.tables base) :
    ∃ b r t, base.lookup name = some b ∧ branch.lookup name = some r ∧
      main.lookup name = some t ∧ r.columns = b.columns ∧ t.columns = b.columns := by
  obtain ⟨b, hb, -⟩ := mem_tables.1 hn
  obtain ⟨r, hr, -⟩ := mem_tables.1 ((h.branch_tables name).2 hn)
  obtain ⟨t, ht, -⟩ := mem_tables.1 ((h.main_tables name).2 hn)
  exact ⟨b, r, t, hb, hr, ht, h.columns name b r t hn hb hr ht⟩

/-! ### The plan -/

theorem compare_table_iff (E : Engine) (c : Conn) (before after : Schema) {b a : Table}
    {d : TableDiff} (hb : (c before).lookup name = some b) (ha : (c after).lookup name = some a)
    (hc : a.columns = b.columns) :
    Compare.table E c name before after = .ok d ↔ b.columns ≠ [] ∧ d = tableDiff E name b a := by
  by_cases hne : b.columns = []
  · have herr : Compare.columns c after name = .error (.noTable name after) := by
      rw [Compare.columns, ha]
      simp [hc, hne]
    simp [Compare.table, herr, hne, bind, Except.bind]
  · have hoka : Compare.columns c after name = .ok a := by
      rw [Compare.columns, ha]
      simp [hc, hne]
    have hokb : Compare.columns c before name = .ok b := by
      rw [Compare.columns, hb]
      simp [hne]
    have hdiff := Compare.diffTables_eq E name before after hc (by rwa [hc])
    simp only [Compare.table, hoka, hokb, bind, Except.bind, hdiff, Except.ok.injEq]
    exact ⟨fun h => ⟨hne, h.symm⟩, fun h => h.2.symm⟩

/-- The plan's entry for one table. -/
def entry (E : Engine) (base branch main : Db) (name : String) : Option TablePlan :=
  match base.lookup name, branch.lookup name, main.lookup name with
  | some b, some r, some t =>
      if (diffRows E b r).isEmpty then none else some (tablePlan E name b r t)
  | _, _, _ => none

theorem entry_of_lookups (hb : base.lookup name = some b)
    (hr : branch.lookup name = some r) (ht : main.lookup name = some t) :
    entry E base branch main name =
      if (diffRows E b r).isEmpty then none else some (tablePlan E name b r t) := by
  rw [entry, hb, hr, ht]

/-- The table of that name in the base has columns, as SQLite's tables do. -/
def HasColumns (base : Db) (name : String) : Prop :=
  ∀ b, base.lookup name = some b → b.columns ≠ []

theorem planTable_iff (h : M.SameTables base branch main) (hn : name ∈ M.tables base)
    (p : List String × Option TablePlan) :
    M.planTable E (attach base branch main) name = .ok p ↔
      HasColumns base name ∧ p = ([], entry E base branch main name) := by
  obtain ⟨b, r, t, hb, hr, ht, hrc, htc⟩ := h.lookups hn
  have hcols : HasColumns base name ↔ b.columns ≠ [] := by
    simp [HasColumns, hb]
  have hours := fun d => compare_table_iff E (attach base branch main) .base .branch (d := d)
    hb hr hrc
  have htheirs := fun d => compare_table_iff E (attach base branch main) .base .main (d := d)
    hb ht htc
  have hbr : ¬ name ∉ M.tables (attach base branch main .branch) :=
    not_not.2 ((h.branch_tables name).2 hn)
  have hma : ¬ name ∉ M.tables (attach base branch main .main) :=
    not_not.2 ((h.main_tables name).2 hn)
  rw [planTable, if_neg hbr, if_neg hma, hcols]
  by_cases hne : b.columns = []
  · cases hc : Compare.table E (attach base branch main) name .base .branch with
    | error e => simp [hne, bind, Except.bind]
    | ok d => exact absurd hne ((hours d).1 hc).1
  · rw [(hours _).2 ⟨hne, rfl⟩, (htheirs _).2 ⟨hne, rfl⟩]
    rw [entry_of_lookups hb hr ht]
    change Except.ok ([], if false || (diffRows E b r).isEmpty then none
      else some (tablePlan E name b r t)) = .ok p ↔ _
    rw [Bool.false_or, Except.ok.injEq]
    exact ⟨fun h => ⟨hne, h.symm⟩, fun h => h.2.symm⟩

/-- The plan of a merge of databases with the same schema. -/
def planOf (M : Merge3) (E : Engine) (base branch main : Db) : Plan :=
  ⟨(M.tables base).filterMap (entry E base branch main), []⟩

theorem plan_iff (h : M.SameTables base branch main) (plan : Plan) :
    M.plan E (attach base branch main) = .ok plan ↔
      (∀ name ∈ M.tables base, HasColumns base name) ∧ plan = M.planOf E base branch main := by
  have hmap : ∀ rs, (M.tables base).mapM (M.planTable E (attach base branch main)) = .ok rs ↔
      (∀ name ∈ M.tables base, HasColumns base name) ∧
        rs = (M.tables base).map (fun name => ([], entry E base branch main name)) :=
    fun rs => mapM_ok_iff fun name hn p => planTable_iff h hn p
  have hcreated : (M.tables branch).filter (fun t => decide (t ∉ M.tables base)) = [] := by
    rw [filter_eq_nil_iff]
    intro t ht
    simp [(h.branch_tables t).1 ht]
  rw [Merge3.plan]
  change ((M.tables base).mapM (M.planTable E (attach base branch main)) >>= fun planned =>
    Except.ok (Plan.mk (planned.filterMap (·.2)) (((M.tables branch).filter
      (fun t => decide (t ∉ M.tables base))).map (fun t => s!"{t}: created on the branch") ++
        planned.flatMap (·.1)))) = .ok plan ↔ _
  rw [hcreated]
  cases hrs : (M.tables base).mapM (M.planTable E (attach base branch main)) with
  | error e =>
    have hno : ¬ ∀ name ∈ M.tables base, HasColumns base name := fun hall => by
      rw [(hmap _).2 ⟨hall, rfl⟩] at hrs
      cases hrs
    simp [hno, bind, Except.bind]
  | ok planned =>
    obtain ⟨hall, rfl⟩ := (hmap _).1 hrs
    have heq : Plan.mk (((M.tables base).map (fun name =>
        (([] : List String), entry E base branch main name))).filterMap (·.2))
        (((M.tables base).map (fun name =>
          (([] : List String), entry E base branch main name))).flatMap (·.1)) =
          M.planOf E base branch main := by
      simp [planOf, filterMap_map, flatMap_map]
    change Except.ok (Plan.mk _ ([] ++ _)) = .ok plan ↔ _
    rw [nil_append, heq, Except.ok.injEq]
    exact ⟨fun h => ⟨hall, h.symm⟩, fun h => h.2.symm⟩

/-! ### Writing the tables -/

section Quiet

variable (hq : E.Quiet)
include hq

theorem foldlM_onMain {δ : Type} {a : Apply} {step : Table → δ → Except Error Table} {ds : List δ}
    {replaces : δ → Bool} {t : Table} (ht : main.lookup a.table = some t)
    (h : ds.foldlM (a.onMain E replaces step) main = .ok main') :
    ∃ t', ds.foldlM step t = .ok t' ∧ main'.lookup a.table = some t' ∧
      ∀ n, n ≠ a.table → main'.lookup n = main.lookup n := by
  induction ds generalizing main t with
  | nil =>
    obtain rfl := foldlM_nil_ok h
    exact ⟨t, rfl, ht, fun n _ => rfl⟩
  | cons d ds ih =>
    obtain ⟨db, h₁, h₂⟩ := foldlM_cons_ok h
    cases hstep : step t d with
    | error e => simp [Apply.onMain, ht, hstep, bind, Except.bind] at h₁
    | ok t₁ =>
      simp only [Apply.onMain, ht, hstep, bind, Except.bind, hq _ _ _] at h₁
      cases h₁
      obtain ⟨t', hrun, hown, hother⟩ := ih (t := t₁) (AList.lookup_insert _) h₂
      refine ⟨t', ?_, hown, fun n hn => ?_⟩
      · rw [foldlM_cons, hstep]
        exact hrun
      · rw [hother n hn, AList.lookup_insert_ne hn]

theorem applyTable_ok {c : Conn} {tp : TablePlan} {r t : Table}
    (hr : (c .branch).lookup tp.table = some r) (ht : main.lookup tp.table = some t)
    (h : M.applyTable E c main tp = .ok main') :
    ∃ t', applyRows ⟨tp.table, tp.key, r⟩ M.onConflict tp t = .ok t' ∧
      main'.lookup tp.table = some t' ∧ ∀ n, n ≠ tp.table → main'.lookup n = main.lookup n := by
  rw [applyTable, hr] at h
  cases hch : (inKindOrder tp.changes).foldlM (Apply.row ⟨tp.table, tp.key, r⟩ E) main with
  | error e => simp [hch, bind, Except.bind] at h
  | ok main₁ =>
    obtain ⟨t₁, hrun₁, hown₁, hother₁⟩ :=
      foldlM_onMain hq (a := ⟨tp.table, tp.key, r⟩) ht hch
    simp only [hch, bind, Except.bind] at h
    split_ifs at h with hon
    · obtain ⟨t₂, hrun₂, hown₂, hother₂⟩ :=
        foldlM_onMain hq (a := ⟨tp.table, tp.key, r⟩) hown₁ h
      refine ⟨t₂, ?_, hown₂, fun n hn => (hother₂ n hn).trans (hother₁ n hn)⟩
      simp [applyRows, hrun₁, bind, Except.bind, hon, hrun₂]
    · cases h
      refine ⟨t₁, ?_, hown₁, hother₁⟩
      simp [applyRows, hrun₁, bind, Except.bind, hon, pure, Except.pure]

omit hq

theorem entry_some {tp : TablePlan} (h : entry E base branch main name = some tp) :
    ∃ b r t, base.lookup name = some b ∧ branch.lookup name = some r ∧
      main.lookup name = some t ∧ tp = tablePlan E name b r t := by
  unfold entry at h
  split at h
  · rename_i b r t hb hr ht
    split_ifs at h
    exact ⟨b, r, t, hb, hr, ht, (Option.some.inj h).symm⟩
  · cases h

theorem distinct_planOf : Keyed.Distinct TablePlan.table (M.planOf E base branch main).tables := by
  have hnames : Keyed.Distinct id (M.tables base) := by
    rw [Keyed.Distinct, map_id]
    exact tables_nodup
  refine hnames.filterMap _ fun name _ tp h => ?_
  obtain ⟨b, r, t, -, -, -, rfl⟩ := entry_some h
  rfl

theorem applyRows_of_isEmpty {on : OnConflict} (h : (diffRows E b r).isEmpty = true) :
    applyRows (applyFor name r) on (tablePlan E name b r t) t = .ok t := by
  have hrows : (tableDiff E name b r).rows = [] := isEmpty_iff.1 h
  have hch : (tablePlan E name b r t).changes = [] := by
    rw [tablePlan, threeWay, hrows]
    rfl
  have hco : (tablePlan E name b r t).conflicts = [] := by
    rw [tablePlan, threeWay, hrows]
    rfl
  rw [applyRows, hch, hco]
  change (if on = .takeBranch then Except.ok t else Except.ok t) = _
  rw [ite_self]

include hq

/-- **What applying the plan does**: every table that takes part goes through the statements of
its own plan, and every other table stays as it is. -/
theorem applied_lookup
    (hrun : (M.planOf E base branch main).tables.foldlM (M.applyTable E (attach base branch main))
      main = .ok main') :
    (∀ name b r t, name ∈ M.tables base → base.lookup name = some b →
      branch.lookup name = some r → main.lookup name = some t →
        ∃ t', applyRows (applyFor name r) M.onConflict (tablePlan E name b r t) t = .ok t' ∧
          main'.lookup name = some t') ∧
    ∀ name, name ∉ M.tables base → main'.lookup name = main.lookup name := by
  have hmem : ∀ tp ∈ (M.planOf E base branch main).tables, ∃ name ∈ M.tables base,
      entry E base branch main name = some tp := fun tp htp => mem_filterMap.1 htp
  obtain ⟨-, hin, hout⟩ := foldlM_local TablePlan.table (fun db n => db.lookup n)
    (fun _ => True) (fun n => main.lookup n)
    (fun tp v => ∀ b r t, base.lookup tp.table = some b → branch.lookup tp.table = some r →
      main.lookup tp.table = some t →
        ∃ t', applyRows (applyFor tp.table r) M.onConflict (tablePlan E tp.table b r t) t = .ok t' ∧
          v = some t')
    distinct_planOf
    (fun db tp db' htp _ hold hstep => by
      obtain ⟨name, hn, hentry⟩ := hmem tp htp
      obtain ⟨b, r, t, hb, hr, ht, rfl⟩ := entry_some hentry
      obtain ⟨t', hrun, hown, hother⟩ := applyTable_ok hq hr (hold.trans ht) hstep
      refine ⟨trivial, fun b' r' t₁ hb' hr' ht₁ => ⟨t', ?_, hown⟩, hother⟩
      obtain rfl := Option.some.inj (hb.symm.trans hb')
      obtain rfl := Option.some.inj (hr.symm.trans hr')
      obtain rfl := Option.some.inj (ht.symm.trans ht₁)
      exact hrun)
    trivial (fun tp _ => rfl) hrun
  refine ⟨fun name b r t hn hb hr ht => ?_, fun name hn => hout name fun tp htp heq => ?_⟩
  · by_cases hempty : (diffRows E b r).isEmpty = true
    · refine ⟨t, applyRows_of_isEmpty hempty, ?_⟩
      rw [← ht]
      refine hout name fun tp htp heq => ?_
      obtain ⟨name', hn', hentry⟩ := hmem tp htp
      obtain ⟨b', r', t', hb', hr', -, rfl⟩ := entry_some hentry
      obtain rfl : name' = name := heq
      rw [entry_of_lookups hb hr ht, if_pos hempty] at hentry
      cases hentry
    · have hentry : entry E base branch main name = some (tablePlan E name b r t) := by
        rw [entry_of_lookups hb hr ht, if_neg hempty]
      exact hin _ (mem_filterMap.2 ⟨name, hn, hentry⟩) b r t hb hr ht
  · obtain ⟨name', hn', hentry⟩ := hmem tp htp
    obtain ⟨b', r', t', -, -, -, rfl⟩ := entry_some hentry
    obtain rfl : name' = name := heq
    exact hn hn'

end Quiet

/-! ### The whole merge -/

variable {files : String → Option Db} {plan : Plan}

theorem mergeIn_applied_iff {c : Conn} :
    M.mergeIn E c = .ok (.applied plan, main') ↔
      M.plan E c = .ok plan ∧ plan.schemaChanges = [] ∧
        ¬ (0 < plan.conflicts ∧ M.onConflict = .abort) ∧
        plan.tables.foldlM (M.applyTable E c) (c .main) = .ok main' := by
  rw [mergeIn]
  cases hplan : M.plan E c with
  | error e => simp [bind, Except.bind]
  | ok p =>
    simp only [bind, Except.bind, pure, Except.pure, Except.ok.injEq]
    by_cases hrefuse : (!p.schemaChanges.isEmpty || (decide (0 < p.conflicts) &&
        decide (M.onConflict = .abort))) = true
    · rw [if_pos hrefuse]
      simp only [Except.ok.injEq, Prod.mk.injEq, reduceCtorEq, false_and, false_iff]
      rintro ⟨rfl, hsch, hab, -⟩
      exact hab (by simpa [hsch] using hrefuse)
    · rw [if_neg hrefuse]
      have hok : p.schemaChanges = [] ∧ ¬ (0 < p.conflicts ∧ M.onConflict = .abort) := by
        simpa using hrefuse
      cases hrun : p.tables.foldlM (M.applyTable E c) (c .main) with
      | error e =>
        simp only [reduceCtorEq, false_iff]
        rintro ⟨rfl, -, -, hrun'⟩
        rw [hrun] at hrun'
        cases hrun'
      | ok db =>
        simp only [Except.ok.injEq, Prod.mk.injEq, Merged.applied.injEq]
        constructor
        · rintro ⟨rfl, rfl⟩
          exact ⟨rfl, hok.1, hok.2, hrun⟩
        · rintro ⟨rfl, -, -, hrun'⟩
          exact ⟨rfl, Except.ok.inj (hrun.symm.trans hrun')⟩

/-- A merge is applied when it can be planned, the plan is not refused, its statements succeed and
the foreign keys hold at the commit. -/
theorem merge_applied_iff (hb : files M.base = some base) (hr : files M.branch = some branch) :
    M.merge E files main = (.ok (.applied plan), main') ↔
      M.mergeIn E (attach base branch main) = .ok (.applied plan, main') ∧
        E.foreignKeys main' = true := by
  simp only [merge, hb, hr]
  split
  · rename_i p db hin
    rw [hin]
    split_ifs with hfk
    · simp only [Prod.mk.injEq, Except.ok.injEq, Merged.applied.injEq]
      constructor
      · rintro ⟨rfl, rfl⟩
        exact ⟨⟨rfl, rfl⟩, hfk⟩
      · rintro ⟨⟨rfl, rfl⟩, -⟩
        exact ⟨rfl, rfl⟩
    · simp only [Prod.mk.injEq, reduceCtorEq, false_and, Except.ok.injEq, Merged.applied.injEq,
        false_iff]
      rintro ⟨⟨rfl, rfl⟩, hfk'⟩
      exact hfk hfk'
  · rename_i p db hin
    simp [hin]
  · rename_i e hin
    simp [hin]

/-- `main'` is, table by table and key by key, the three-way merge of the databases; tables that do
not take part are as they were. -/
structure IsThreeWayMerge (M : Merge3) (base branch main main' : Db) : Prop where
  merged : ∀ name b r t, name ∈ M.tables base → base.lookup name = some b →
    branch.lookup name = some r → main.lookup name = some t →
      ∃ t', main'.lookup name = some t' ∧
        ∀ k, t'.rowsAt k = (mergedAt M.onConflict.takes b r t k).toList
  others : ∀ name, name ∉ M.tables base → main'.lookup name = main.lookup name

def kuv : List Column :=
  [⟨"k", "INTEGER", 1, fun x y => x == y⟩, ⟨"u", "INTEGER", 0, fun x y => x == y⟩,
    ⟨"v", "INTEGER", 0, fun x y => x == y⟩]

def kuvRow (k u v : Int64) : RowOf kuv :=
  RowOf.ofFn kuv (fun c => .integer (if c = "k" then k else if c = "u" then u else v))

def kuvTable (rows : List (RowOf kuv)) : Table := ⟨.table, kuv, [["u"]], fun _ => true, rows⟩

/-- The database with the table `t` only. -/
def onlyT (t : Table) : Db := AList.singleton "t" t

theorem lookup_onlyT (t : Table) (n : String) :
    (onlyT t).lookup n = if n = "t" then some t else none := by
  by_cases hn : n = "t"
  · subst hn
    rfl
  · rw [if_neg hn, AList.lookup_eq_none, AList.mem_keys]
    simpa [onlyT, AList.keys_singleton] using hn

theorem mem_tables_onlyT {t : Table} (h : name ∈ M.tables (onlyT t)) : name = "t" := by
  obtain ⟨t', ht', -⟩ := mem_tables.1 h
  rw [lookup_onlyT] at ht'
  split_ifs at ht' with hn
  exact hn

/-- An engine that sorts nothing. -/
def plainEngine : Engine where
  keyLe _ _ _ := true
  keyLe_refl _ _ := rfl
  distance _ _ := none
  react _ _ after := after
  foreignKeys _ := true

theorem quiet_plainEngine : plainEngine.Quiet := fun _ _ _ => rfl

theorem exact_kuv : Exact kuv := by
  intro col hcol x y
  simp only [kuv, mem_cons, not_mem_nil, or_false] at hcol
  rcases hcol with rfl | rfl | rfl <;> rfl

theorem comparable_kuv {bs rs ms : List (RowOf kuv)}
    (hplain : ∀ ρ ∈ bs ++ rs ++ ms, ∀ c ∈ fieldNames kuv, (ρ.val c).plain = true)
    (hb : ((bs.map (kuvTable bs).keyVals)).Nodup) (hr : (rs.map (kuvTable rs).keyVals).Nodup)
    (hm : (ms.map (kuvTable ms).keyVals).Nodup) :
    Comparable (kuvTable bs) (kuvTable rs) (kuvTable ms) := by
  simp only [forall_mem_append] at hplain
  obtain ⟨⟨hbs, hrs⟩, hms⟩ := hplain
  exact ⟨rfl, rfl, exact_kuv, fun ρ hρ => ρ.plain (hbs ρ hρ), fun ρ hρ => ρ.plain (hrs ρ hρ),
    fun ρ hρ => ρ.plain (hms ρ hρ), hb, hr, hm⟩

theorem eq_of_onlyT {P : Table → Table → Table → Prop} (h : P b r t)
    {b' r' t' : Table} (hn : name ∈ M.tables (onlyT b)) (hb : (onlyT b).lookup name = some b')
    (hr : (onlyT r).lookup name = some r') (ht : (onlyT t).lookup name = some t') :
    P b' r' t' := by
  obtain rfl := mem_tables_onlyT hn
  rw [lookup_onlyT, if_pos rfl, Option.some.injEq] at hb hr ht
  subst hb hr ht
  exact h

theorem sameTables_onlyT (hrc : r.columns = b.columns)
    (htc : t.columns = b.columns) (hb : b.type = .table) (hr : r.type = .table)
    (ht : t.type = .table) : M.SameTables (onlyT b) (onlyT r) (onlyT t) := by
  have hiff : ∀ {t : Table}, t.type = .table → ∀ name, name ∈ M.tables (onlyT t) ↔
      name = "t" ∧ M.takesPart "t" = true := by
    intro t htype name
    constructor
    · intro hn
      obtain rfl := mem_tables_onlyT hn
      obtain ⟨-, -, -, hpart⟩ := mem_tables.1 hn
      exact ⟨rfl, hpart⟩
    · rintro ⟨rfl, hpart⟩
      exact mem_tables.2 ⟨t, rfl, htype, hpart⟩
  refine ⟨fun name => by rw [hiff hr, hiff hb], fun name => by rw [hiff ht, hiff hb], ?_⟩
  intro name b' r' t' hn hb' hr' ht'
  exact eq_of_onlyT (P := fun b r t => r.columns = b.columns ∧ t.columns = b.columns)
    ⟨hrc, htc⟩ hn hb' hr' ht'

theorem sameSchema_onlyT (h : Comparable b r t) (hb : b.type = .table)
    (hr : r.type = .table) (ht : t.type = .table) :
    M.SameSchema (onlyT b) (onlyT r) (onlyT t) :=
  ⟨sameTables_onlyT h.branch_columns h.main_columns hb hr ht,
    fun _ _ _ _ hn hb' hr' ht' => eq_of_onlyT h hn hb' hr' ht'⟩

/-- Both sides edited row `1`, the branch to `u = 5`; main also has a row `2` with `u = 5`. -/
def collidingFiles : String → Option Db := fun file =>
  if file = "base" then some (onlyT (kuvTable [kuvRow 1 1 0]))
  else some (onlyT (kuvTable [kuvRow 1 5 1]))

def collidingMain : Table := kuvTable [kuvRow 1 1 2, kuvRow 2 5 0]

/-- `t` beside a table `c` whose row refers to row `1` of `t`, ON DELETE CASCADE. -/
def withChild (t : Table) : Db := (onlyT t).insert "c" (kuvTable [kuvRow 10 1 0])

/-- `INSERT OR REPLACE` deletes the row of `t`, and with it that of `c`. -/
def cascadeEngine : Engine :=
  { plainEngine with
    react := fun replaces _ db => if replaces then db.insert "c" (kuvTable []) else db }

theorem row?_kuvTable_singleton {k u v : Int64} {key : List Value} (h : key ≠ [.integer k]) :
    (kuvTable [kuvRow k u v]).row? key = none := by
  have hnone : get (kuvTable [kuvRow k u v]).keyVals key [kuvRow k u v] = none := by
    rw [get_eq_none]
    intro ρ hρ
    rw [mem_singleton.1 hρ]
    exact Ne.symm h
  exact congrArg (Option.map (·.val)) hnone

theorem exists_taken : ∃ plan main', (Merge3.mk "base" "branch" [] .takeBranch).merge plainEngine
    collidingFiles (onlyT (kuvTable [kuvRow 1 1 2])) = (.ok (.applied plan), main') ∧
      (Merge3.mk "base" "branch" [] .takeBranch).SameSchema (onlyT (kuvTable [kuvRow 1 1 0]))
        (onlyT (kuvTable [kuvRow 1 5 1])) (onlyT (kuvTable [kuvRow 1 1 2])) :=
  ⟨_, _, rfl, sameSchema_onlyT (comparable_kuv (by decide) (by decide) (by decide) (by decide)) rfl
    rfl rfl⟩

end SqlAnywhere.Merge3
