import SqlAnywhere.Lib.ThreeWay
import SqlAnywhere.Merge3

/-!
# The plan of a merge, key by key

Where columns compare by exact value, what `threeWay` decides about a row depends only on the
three rows with its key: `rowDiff` is the difference between two versions of one row, and
`judge_spec` says that the verdict on the branch's difference is the three-way merge of the rows.
-/

namespace SqlAnywhere

open List Option Keyed
open Compare

/-- The difference between two versions of one row. -/
def rowDiff (E : Engine) (key : List String) (cols : List Column) :
    Option Row → Option Row → Option RowDiff
  | none, none => none
  | none, some n => some (insertedDiff key cols n)
  | some o, none => some (deletedDiff key cols o)
  | some o, some n =>
      if ∀ c ∈ cols, o c.name = n c.name then none else some (updatedDiff E key cols o n)

/-- The two rows, where both are there, have the same values off the columns `cols`, and values that
`==` tells apart. -/
def AgreeOff (cols : List Column) (x y : Option Row) : Prop :=
  ∀ x' y', x = some x' → y = some y' →
    (∀ c, c ∉ cols.map (·.name) → x' c = y' c) ∧ Plain x' ∧ Plain y'

/-- Writing the change `d` from the branch's row `r` turns the row `m` into `x`, and changes it. -/
def Turns (d : RowDiff) (r m x : Option Row) : Prop :=
  match d.kind with
  | .deleted => m.isSome ∧ x = none
  | .inserted => m = none ∧ r.isSome ∧ x = r
  | .updated =>
      ∃ r' m', r = some r' ∧ m = some m' ∧ d.columns ≠ [] ∧
        (∀ c ∈ d.columns, r' c.column ≠ m' c.column) ∧
        x = some (fun c => if c ∈ d.columns.map (·.column) then r' c else m' c)

theorem Turns.ne {d : RowDiff} {r m x : Option Row} (h : Turns d r m x) : x ≠ m := by
  unfold Turns at h
  split at h
  · rintro rfl
    simp [h.2] at h
  · rintro rfl
    obtain ⟨hm, hr, rfl⟩ := h
    simp [hm] at hr
  · obtain ⟨r', m', -, rfl, hne, hc, rfl⟩ := h
    obtain ⟨c, hmem⟩ := exists_mem_of_ne_nil _ hne
    intro heq
    have := congrFun (some.inj heq) c.column
    rw [if_pos (mem_map_of_mem hmem)] at this
    exact hc c hmem this

section Columns

variable {E : Engine} {key : List String} {cols : List Column} {o n r m : Row}

theorem eq_of_agreeOff (h : AgreeOff cols (some o) (some n)) (hc : ∀ c ∈ cols, o c.name = n c.name) :
    o = n := by
  funext c
  by_cases hmem : c ∈ cols.map (·.name)
  · obtain ⟨col, hcol, rfl⟩ := mem_map.1 hmem
    exact hc col hcol
  · exact (h o n rfl rfl).1 c hmem

theorem AgreeOff.valueEq_iff (h : AgreeOff cols (some o) (some n)) (c : String) :
    valueEq (o c) (n c) = true ↔ o c = n c := by
  obtain ⟨-, ho, hn⟩ := h o n rfl rfl
  rw [valueEq_eq (ho c) (hn c), decide_eq_true_eq]

theorem mem_updatedDiff_columns (h : AgreeOff cols (some o) (some n)) {d : ColumnDiff}
    (hd : d ∈ (updatedDiff E key cols o n).columns) :
    o d.column ≠ n d.column ∧ d.after = some (n d.column) := by
  simp only [updatedDiff, mem_filterMap, h.valueEq_iff] at hd
  obtain ⟨c, -, hc⟩ := hd
  split_ifs at hc with h
  cases hc
  exact ⟨h, rfl⟩

theorem exists_updatedDiff_column (hon : AgreeOff cols (some o) (some n)) {c : Column} (hc : c ∈ cols)
    (h : o c.name ≠ n c.name) : ∃ d ∈ (updatedDiff E key cols o n).columns, d.column = c.name :=
  ⟨_, mem_filterMap.2 ⟨c, hc, if_neg fun heq => h ((hon.valueEq_iff _).1 heq)⟩, rfl⟩

theorem exists_updatedDiff_of_ne {c : String}
    (h : AgreeOff cols (some o) (some n)) (hne : o c ≠ n c) : c ∈ cols.map (·.name) ∧
      ∃ d ∈ (updatedDiff E key cols o n).columns, d.column = c := by
  have hmem : c ∈ cols.map (·.name) := by
    by_contra hc
    exact hne ((h o n rfl rfl).1 c hc)
  refine ⟨hmem, ?_⟩
  obtain ⟨col, hcol, rfl⟩ := mem_map.1 hmem
  exact exists_updatedDiff_column h hcol hne

/-- What an updated row's difference says about one column: its new value if it changed. -/
theorem column_updatedDiff (E : Engine) (key : List String) (hon : AgreeOff cols (some o) (some n))
    (c : String) :
    ((updatedDiff E key cols o n).column c).map (·.after) =
      if c ∈ cols.map (·.name) ∧ o c ≠ n c then some (some (n c)) else none := by
  cases hf : (updatedDiff E key cols o n).column c with
  | some d =>
    have hname : d.column = c := by simpa using find?_some hf
    have hmem := mem_of_find?_eq_some hf
    obtain ⟨hne, hafter⟩ := mem_updatedDiff_columns hon hmem
    obtain ⟨col, hcol, hd⟩ := mem_filterMap.1 hmem
    split_ifs at hd with h
    cases hd
    subst hname
    rw [if_pos ⟨mem_map_of_mem hcol, hne⟩]
    rfl
  | none =>
    rw [if_neg]
    · rfl
    · rintro ⟨hmem, hne⟩
      obtain ⟨col, hcol, rfl⟩ := mem_map.1 hmem
      obtain ⟨d, hd, hname⟩ := exists_updatedDiff_column hon hcol hne
      have := find?_eq_none.1 hf d hd
      simp [hname] at this

/-- A column the branch wrote clashes when main wrote it too, with another value. -/
theorem clashes_updatedDiff (hor : AgreeOff cols (some o) (some r))
    (hom : AgreeOff cols (some o) (some m)) {d : ColumnDiff}
    (hd : d ∈ (updatedDiff E key cols o r).columns) :
    clashes (updatedDiff E key cols o m) d = true ↔
      d.column ∈ cols.map (·.name) ∧ o d.column ≠ m d.column ∧ r d.column ≠ m d.column := by
  have hcol := column_updatedDiff E key hom d.column
  rw [clashes, (mem_updatedDiff_columns hor hd).2]
  split
  · rename_i theirs hsome
    rw [hsome, map_some] at hcol
    split_ifs at hcol with h
    have heq := valueEq_eq ((hom o m rfl rfl).2.2 d.column) ((hor o r rfl rfl).2.2 d.column)
    rw [some.inj hcol, optionEq, heq, Bool.not_eq_true', decide_eq_false_iff_not, eq_comm]
    exact ⟨fun hne => ⟨h.1, h.2, hne⟩, fun hall => hall.2.2⟩
  · rename_i hnone
    rw [hnone, map_none] at hcol
    split_ifs at hcol with h
    simp only [Bool.false_eq_true, false_iff]
    exact fun h' => h ⟨h'.1, h'.2.1⟩

theorem any_clashes_iff (hor : AgreeOff cols (some o) (some r))
    (hom : AgreeOff cols (some o) (some m)) :
    (updatedDiff E key cols o r).columns.any (clashes (updatedDiff E key cols o m)) = true ↔
      ¬ ThreeWay.Compatible o r m := by
  rw [List.any_eq_true]
  constructor
  · rintro ⟨d, hd, hclash⟩ hcompat
    obtain ⟨-, hne, hrm⟩ := (clashes_updatedDiff hor hom hd).1 hclash
    rcases hcompat d.column with h | h | h
    · exact (mem_updatedDiff_columns hor hd).1 h.symm
    · exact hne h.symm
    · exact hrm h
  · intro hcompat
    simp only [ThreeWay.Compatible, not_forall, not_or] at hcompat
    obtain ⟨c, hro, hmo, hrm⟩ := hcompat
    obtain ⟨hmem, d, hd, rfl⟩ := exists_updatedDiff_of_ne hor (Ne.symm hro)
    exact ⟨d, hd, (clashes_updatedDiff hor hom hd).2 ⟨hmem, Ne.symm hmo, hrm⟩⟩

theorem sameAfters_insertedDiff (h : AgreeOff cols (some r) (some m)) :
    sameAfters (insertedDiff key cols r) (insertedDiff key cols m) = true ↔ r = m := by
  have hall : sameAfters (insertedDiff key cols r) (insertedDiff key cols m) = true ↔
      ∀ c ∈ cols, r c.name = m c.name := by
    have heq := h.valueEq_iff
    clear h
    simp only [sameAfters, afters, insertedDiff, List.map_map]
    induction cols with
    | nil => simp
    | cons c cols ih =>
      rw [map_cons, map_cons, List.isEqv, Bool.and_eq_true, forall_mem_cons]
      exact and_congr (by simp [optionEq, heq]) ih
  exact hall.trans ⟨eq_of_agreeOff h, fun heq c _ => by rw [heq]⟩

theorem mem_ownColumns_updatedDiff
    (hor : AgreeOff cols (some o) (some r)) (hom : AgreeOff cols (some o) (some m)) (c : String) :
    c ∈ (ownColumns (updatedDiff E key cols o r) (updatedDiff E key cols o m)).map (·.column) ↔
      o c ≠ r c ∧ o c = m c := by
  have hnone : ∀ c, ((updatedDiff E key cols o m).column c).isNone = true ↔ o c = m c := by
    intro c
    rw [isNone_iff_eq_none, ← map_eq_none_iff (f := (·.after)), column_updatedDiff E key hom]
    split_ifs with h
    · simp [h.2]
    · refine iff_of_true rfl ?_
      by_contra hne
      exact h ⟨by_contra fun hc => hne ((hom o m rfl rfl).1 c hc), hne⟩
  constructor
  · intro hc
    obtain ⟨d, hd, rfl⟩ := mem_map.1 hc
    obtain ⟨hmem, hfree⟩ := mem_filter.1 hd
    exact ⟨(mem_updatedDiff_columns hor hmem).1, (hnone _).1 hfree⟩
  · rintro ⟨hne, heq⟩
    obtain ⟨-, d, hd, rfl⟩ := exists_updatedDiff_of_ne hor hne
    exact mem_map.2 ⟨d, mem_filter.2 ⟨hd, (hnone _).2 heq⟩, rfl⟩

end Columns

/-! ### The verdict on one row -/

section Judge

variable {E : Engine} {key : List String} {cols : List Column} {take : Bool} {row : RowDiff}
  {main : Option RowDiff}

/-- Two compatible updates: the branch's own columns written over main's row combine them. -/
theorem combine_eq_own {o r m : Row}
    (hor : AgreeOff cols (some o) (some r)) (hom : AgreeOff cols (some o) (some m))
    (hcompat : ThreeWay.Compatible o r m) :
    ThreeWay.combine o r m = fun c =>
      if c ∈ (ownColumns (updatedDiff E key cols o r) (updatedDiff E key cols o m)).map (·.column)
      then r c else m c := by
  funext c
  simp only [ThreeWay.combine_apply, mem_ownColumns_updatedDiff hor hom]
  rcases hcompat c with h | h | h
  · simp [h]
  · rw [h]
    by_cases hro : r c = o c
    · simp [hro]
    · simp [hro, Ne.symm hro]
  · simp [h]

/-- The outcomes of `judge`, for the difference `row` between `b` and `r` and main's row `m`. -/
def JudgedAs (E : Engine) (key : List String) (cols : List Column) (take : Bool)
    (b r m : Option Row) (row : RowDiff) (v : Verdict) : Prop :=
  (v = .agreed ∧ ¬ ThreeWay.Conflict b r m ∧ ThreeWay.merge take b r m = m) ∨
  (∃ d, v = .change d ∧ d.key = row.key ∧ ¬ ThreeWay.Conflict b r m ∧
    Turns d r m (ThreeWay.merge take b r m)) ∨
  (∃ main, v = .conflict ⟨row, main⟩ ∧ rowDiff E key cols b m = some main ∧
    ThreeWay.Conflict b r m)

/-- A row that merging leaves as it is gets no verdict but that both sides agree. -/
theorem JudgedAs.agreed {b r m : Option Row} {v : Verdict}
    (h : JudgedAs E key cols take b r m row v) (hc : ¬ ThreeWay.Conflict b r m)
    (hmerge : ThreeWay.merge take b r m = m) : v = .agreed := by
  rcases h with ⟨hv, -⟩ | ⟨d, -, -, -, ht⟩ | ⟨main, -, -, hc'⟩
  · exact hv
  · exact absurd hmerge ht.ne
  · exact absurd hc' hc

theorem judgedAs_of_main_eq {b r : Option Row} (hbr : AgreeOff cols b r)
    (hrow : rowDiff E key cols b r = some row) :
    JudgedAs E key cols take b r b row (.change row) := by
  refine Or.inr (Or.inl ⟨row, rfl, rfl, fun h => h.main_ne rfl, ?_⟩)
  rw [ThreeWay.merge_base_right]
  match b, r, hrow with
  | none, some r, rfl => exact ⟨rfl, rfl, rfl⟩
  | some o, none, rfl => exact ⟨rfl, rfl⟩
  | some o, some r, hrow =>
    simp only [rowDiff] at hrow
    split_ifs at hrow with h
    cases hrow
    simp only [not_forall] at h
    obtain ⟨c, hc, hne⟩ := h
    obtain ⟨d, hd, -⟩ := exists_updatedDiff_column hbr hc hne
    refine ⟨r, o, rfl, rfl, ne_nil_of_mem hd,
      fun c hc => Ne.symm (mem_updatedDiff_columns hbr hc).1, ?_⟩
    congr 1
    funext c
    split_ifs with hmem
    · rfl
    -- a column that is not listed has the same value in both rows
    by_contra hne
    apply hmem
    obtain ⟨-, d, hd, hdc⟩ := exists_updatedDiff_of_ne hbr (Ne.symm hne)
    exact mem_map.2 ⟨d, hd, hdc⟩

theorem judgedAs_updated {o r m : Row} (hor : AgreeOff cols (some o) (some r))
    (hom : AgreeOff cols (some o) (some m))
    (hmain : rowDiff E key cols (some o) (some m) = some (updatedDiff E key cols o m)) :
    JudgedAs E key cols take (some o) (some r) (some m) (updatedDiff E key cols o r)
      (judge (updatedDiff E key cols o r) (some (updatedDiff E key cols o m))) := by
  have hjudge : judge (updatedDiff E key cols o r) (some (updatedDiff E key cols o m)) =
      if (updatedDiff E key cols o r).columns.any (clashes (updatedDiff E key cols o m)) then
        .conflict ⟨updatedDiff E key cols o r, updatedDiff E key cols o m⟩
      else if (ownColumns (updatedDiff E key cols o r) (updatedDiff E key cols o m)).isEmpty then
        .agreed
      else .change { updatedDiff E key cols o r with
        columns := ownColumns (updatedDiff E key cols o r) (updatedDiff E key cols o m) } := rfl
  rw [hjudge]
  split_ifs with hclash hown
  · rw [any_clashes_iff hor hom] at hclash
    exact Or.inr (Or.inr ⟨_, rfl, hmain, ThreeWay.conflict_some_iff.2 hclash⟩)
  · rw [any_clashes_iff hor hom, not_not] at hclash
    refine Or.inl ⟨rfl, fun h => ThreeWay.conflict_some_iff.1 h hclash, ?_⟩
    rw [ThreeWay.merge_of_compatible hclash, combine_eq_own hor hom hclash,
      isEmpty_iff.1 hown]
    simp
  · rw [any_clashes_iff hor hom, not_not] at hclash
    refine Or.inr (Or.inl ⟨_, rfl, rfl, fun h => ThreeWay.conflict_some_iff.1 h hclash, ?_⟩)
    rw [ThreeWay.merge_of_compatible hclash, combine_eq_own hor hom hclash]
    refine ⟨r, m, rfl, rfl, by simpa using hown, fun c hc => ?_, rfl⟩
    obtain ⟨hne, heq⟩ := (mem_ownColumns_updatedDiff hor hom c.column).1
      (mem_map_of_mem hc)
    rw [← heq]
    exact Ne.symm hne

theorem rowDiff_eq_none {b m : Option Row} (hbm : AgreeOff cols b m) :
    rowDiff E key cols b m = none ↔ m = b := by
  match b, m with
  | none, none => simp [rowDiff]
  | none, some m => simp [rowDiff]
  | some o, none => simp [rowDiff]
  | some o, some m =>
    simp only [rowDiff, ite_eq_left_iff, reduceCtorEq, imp_false, not_not, some.injEq]
    exact ⟨fun h => (eq_of_agreeOff hbm h).symm, fun h c _ => by rw [h]⟩

theorem rowDiff_of_ne {o n : Row} (h : AgreeOff cols (some o) (some n)) (hne : some n ≠ some o) :
    rowDiff E key cols (some o) (some n) = some (updatedDiff E key cols o n) :=
  if_neg fun hsame => hne (by rw [eq_of_agreeOff h hsame])

/-- The verdict on the branch's difference is the three-way merge of the three rows: the row is
left alone, written, or reported as a conflict, exactly as the merge asks for. -/
theorem judge_spec (take : Bool) {b r m : Option Row} (hbr : AgreeOff cols b r)
    (hbm : AgreeOff cols b m) (hrm : AgreeOff cols r m) (hrow : rowDiff E key cols b r = some row) :
    JudgedAs E key cols take b r m row (judge row (rowDiff E key cols b m)) := by
  have hr : r ≠ b := fun h => by simp [(rowDiff_eq_none hbr).2 h] at hrow
  by_cases hm : m = b
  · subst hm
    rw [(rowDiff_eq_none hbm).2 rfl]
    exact judgedAs_of_main_eq hbr hrow
  match b, r, m with
  | none, some r, some m =>
    cases hrow
    have hjudge : judge (insertedDiff key cols r) (some (insertedDiff key cols m)) =
        if sameAfters (insertedDiff key cols r) (insertedDiff key cols m) then .agreed
        else .conflict ⟨insertedDiff key cols r, insertedDiff key cols m⟩ := rfl
    rw [rowDiff, hjudge]
    split_ifs with h
    · obtain rfl := (sameAfters_insertedDiff hrm).1 h
      exact Or.inl ⟨rfl, ThreeWay.not_conflict_self_right, ThreeWay.merge_self⟩
    · have hne : r ≠ m := fun heq => h ((sameAfters_insertedDiff hrm).2 heq)
      exact Or.inr (Or.inr ⟨_, rfl, rfl, by simp, by simp, by simpa using hne, by simp⟩)
  | some o, none, none =>
    cases hrow
    exact Or.inl ⟨rfl, ThreeWay.not_conflict_self_right, ThreeWay.merge_self⟩
  | some o, none, some m =>
    cases hrow
    rw [rowDiff_of_ne hbm hm]
    exact Or.inr (Or.inr ⟨_, rfl, rowDiff_of_ne hbm hm, by simp, hm, by simp, by simp⟩)
  | some o, some r, none =>
    obtain rfl := some.inj ((rowDiff_of_ne hbr hr).symm.trans hrow)
    exact Or.inr (Or.inr ⟨_, rfl, rfl, hr, by simp, by simp, by simp⟩)
  | some o, some r, some m =>
    obtain rfl := some.inj ((rowDiff_of_ne hbr hr).symm.trans hrow)
    rw [rowDiff_of_ne hbm hm]
    exact judgedAs_updated hbr hbm (rowDiff_of_ne hbm hm)

/-- A change has the key of the branch's difference, and a conflict shows it. -/
theorem judge_row :
    (∀ d, (judge row main).change? = some d → d.key = row.key) ∧
      ∀ c, (judge row main).conflict? = some c → c.branch = row := by
  unfold judge
  repeat' split
  all_goals simp [Verdict.change?, Verdict.conflict?]

end Judge

/-! ### The comparisons of one table -/

/-- The differences between a row of the base, if there is one, and the rows `as` with its key. -/
def rowDiffs (E : Engine) (key : List String) (cols : List Column) (b : Option Row)
    (as : List Row) : List RowDiff :=
  if as = [] then (rowDiff E key cols b none).toList
  else as.filterMap (fun n => rowDiff E key cols b (some n))

theorem rowDiffs_toList (E : Engine) (key : List String) (cols : List Column) (b a : Option Row) :
    rowDiffs E key cols b a.toList = (rowDiff E key cols b a).toList := by
  cases a with
  | none => simp [rowDiffs]
  | some n =>
    simp only [rowDiffs, toList_some, cons_ne_nil, if_false]
    cases h : rowDiff E key cols b (some n) with
    | none | some => simp [h]

/-- The base, the branch's and the live version of a table that a merge can compare: the same
columns, compared by exact value, also by `==`, and no key twice. -/
structure Comparable (b r m : Table) : Prop where
  branch_columns : r.columns = b.columns
  main_columns : m.columns = b.columns
  exact : Exact b.columns
  base_plain : ∀ ρ ∈ b.rows, Plain ρ.val
  branch_plain : ∀ ρ ∈ r.rows, Plain ρ.val
  main_plain : ∀ ρ ∈ m.rows, Plain ρ.val
  base_distinct : Keyed.Distinct b.keyVals b.rows
  branch_distinct : Keyed.Distinct r.keyVals r.rows
  main_distinct : Keyed.Distinct m.keyVals m.rows

/-- All rows of the comparison of `b` with `a`, when they have the same columns. -/
def diffRows (E : Engine) (b a : Table) : List RowDiff :=
  inserted E b a a.key a.columns ++ updated E b a a.key a.columns ++ deleted E b a a.key a.columns

section Table

variable {E : Engine} {b a : Table} {k : List Value}

theorem fiber_diffRows (hx : Exact b.columns) (hc : a.columns = b.columns)
    (hb : Keyed.Distinct b.keyVals b.rows) :
    fiber RowDiff.key k (diffRows E b a) =
      rowDiffs E b.key b.columns (b.row? k) (a.rowsAt k) := by
  have hk : b.key = a.key := by rw [Table.key, Table.key, hc]
  rw [diffRows, fiber_append, fiber_append, fiber_inserted hx hk, fiber_updated hx hk,
    fiber_deleted hx hk, Table.rowsAt_of_distinct hb, hk, hc]
  unfold rowDiffs
  cases b.row? k with
  | none =>
    by_cases ha : a.rowsAt k = [] <;> simp [ha, rowDiff]
  | some o =>
    by_cases ha : a.rowsAt k = []
    · simp [ha, rowDiff]
    simp only [toList_some, cons_ne_nil, if_false, ha, nil_append, append_nil]
    rw [filterMap_eq_flatMap_toList]
    refine flatMap_congr fun n _ => ?_
    -- the joined pair is listed exactly when some column differs
    rw [rowDiff]
    split_ifs with h
    · rw [filter_eq_nil_iff.2, map_nil, toList_none]
      simpa [differs_eq hx] using h
    · rw [filter_eq_self.2, map_singleton, toList_some]
      simpa [differs_eq hx] using h

theorem byKey_eq (theirs : TableDiff) :
    byKey theirs k = (fiber RowDiff.key k theirs.rows).getLast? := by
  rw [fiber, getLast?_filter]
  rfl

theorem Table.row?_of_rowsAt {t : Table} {x : Option Row} (h : t.rowsAt k = x.toList) : t.row? k = x := by
  have hhead : t.row? k = (t.rowsAt k).head? := by
    rw [Table.row?, Table.rowsAt, Keyed.get, head?_map]
  rw [hhead, h]
  cases x <;> rfl

theorem RowOf.plain {columns : List Column} (ρ : RowOf columns)
    (h : ∀ c ∈ fieldNames columns, (ρ.val c).plain = true) : Plain ρ.val := by
  intro c
  by_cases hc : c ∈ fieldNames columns
  · exact h c hc
  · rw [ρ.off c hc]
    rfl

theorem Table.plain_row? {t : Table} (h : ∀ ρ ∈ t.rows, Plain ρ.val) (x : Row)
    (hx : t.row? k = some x) :
    Plain x := by
  obtain ⟨ρ, hρ, rfl, -⟩ := Table.row?_eq_some hx
  exact h ρ hρ

theorem agreeOff_row? {t t' : Table} (hc : t'.columns = t.columns)
    (ht : ∀ x, t.row? k = some x → Plain x) (ht' : ∀ x, t'.row? k = some x → Plain x) :
    AgreeOff t.columns (t.row? k) (t'.row? k) := by
  intro x x' hx hx'
  refine ⟨fun c hnot => ?_, ht x hx, ht' x' hx'⟩
  obtain ⟨ρ, -, rfl, hk⟩ := Table.row?_eq_some hx
  obtain ⟨ρ', -, rfl, hk'⟩ := Table.row?_eq_some hx'
  exact Table.eq_off_columns hc (hk.trans hk'.symm) hnot

end Table

/-! ### The plan of one table -/

/-- The three rows with key `k` conflict. -/
def ConflictAt (b r m : Table) (k : List Value) : Prop :=
  ThreeWay.Conflict (b.row? k) (r.row? k) (m.row? k)

/-- The three-way merge of the rows with key `k`. -/
noncomputable def mergedAt (take : Bool) (b r m : Table) (k : List Value) : Option Row :=
  ThreeWay.merge take (b.row? k) (r.row? k) (m.row? k)

/-- The comparison of two versions with the same columns. -/
def tableDiff (E : Engine) (name : String) (b a : Table) : TableDiff :=
  ⟨name, a.key, diffRows E b a, [], []⟩

/-- The plan for one table whose three versions have the same columns. -/
def tablePlan (E : Engine) (name : String) (b r m : Table) : TablePlan :=
  threeWay (tableDiff E name b r) (tableDiff E name b m)

theorem Verdict.change?_eq_some {v : Verdict} {d : RowDiff} :
    v.change? = some d ↔ v = .change d := by
  cases v <;> simp [change?]

theorem Verdict.conflict?_eq_some {v : Verdict} {c : Conflict} :
    v.conflict? = some c ↔ v = .conflict c := by
  cases v <;> simp [conflict?]

namespace Comparable

variable {E : Engine} {name : String} {b r m : Table} {k : List Value} {take : Bool} {row d : RowDiff}
  {c : Conflict} (h : Comparable b r m)
include h

theorem branch_key : r.key = b.key := by
  rw [Table.key, Table.key, h.branch_columns]

theorem main_key : m.key = b.key := by
  rw [Table.key, Table.key, h.main_columns]

theorem agreeOff_branch : AgreeOff b.columns (b.row? k) (r.row? k) :=
  agreeOff_row? h.branch_columns (Table.plain_row? h.base_plain) (Table.plain_row? h.branch_plain)

theorem fiber_ours :
    fiber RowDiff.key k (diffRows E b r) =
      (rowDiff E b.key b.columns (b.row? k) (r.row? k)).toList := by
  rw [fiber_diffRows h.exact h.branch_columns h.base_distinct,
    Table.rowsAt_of_distinct h.branch_distinct, rowDiffs_toList]

theorem mem_ours :
    row ∈ diffRows E b r ↔
      rowDiff E b.key b.columns (b.row? row.key) (r.row? row.key) = some row := by
  have hmem : row ∈ diffRows E b r ↔ row ∈ fiber RowDiff.key row.key (diffRows E b r) := by
    simp
  rw [hmem, h.fiber_ours, mem_toList]

theorem distinct_ours : Keyed.Distinct RowDiff.key (diffRows E b r) := by
  refine distinct_of_fiber fun k => ?_
  rw [h.fiber_ours]
  cases rowDiff E b.key b.columns (b.row? k) (r.row? k) <;> simp

theorem byKey_of_rowsAt {t : Table} {x : Option Row}
    (ht : t.columns = b.columns) (hx : t.rowsAt k = x.toList) :
    byKey (tableDiff E name b t) k = rowDiff E b.key b.columns (b.row? k) x := by
  have hfiber : fiber RowDiff.key k (tableDiff E name b t).rows =
      (rowDiff E b.key b.columns (b.row? k) x).toList := by
    rw [tableDiff, fiber_diffRows h.exact ht h.base_distinct, hx, rowDiffs_toList]
  rw [byKey_eq, hfiber]
  cases rowDiff E b.key b.columns (b.row? k) x <;> rfl

theorem byKey_theirs :
    byKey (tableDiff E name b m) k = rowDiff E b.key b.columns (b.row? k) (m.row? k) :=
  h.byKey_of_rowsAt h.main_columns (Table.rowsAt_of_distinct h.main_distinct _)

theorem judged_of_rowsAt (take : Bool) {t : Table} {x : Option Row}
    (ht : t.columns = b.columns) (hx : t.rowsAt row.key = x.toList)
    (hplain : ∀ y, x = some y → Plain y) (hrow : row ∈ diffRows E b r) :
    JudgedAs E b.key b.columns take (b.row? row.key) (r.row? row.key) x row
      (judge row (byKey (tableDiff E name b t) row.key)) := by
  rw [h.byKey_of_rowsAt ht hx]
  rw [← Table.row?_of_rowsAt hx] at hplain ⊢
  have hrt : AgreeOff r.columns (r.row? row.key) (t.row? row.key) :=
    agreeOff_row? (ht.trans h.branch_columns.symm) (Table.plain_row? h.branch_plain) hplain
  rw [h.branch_columns] at hrt
  exact judge_spec take h.agreeOff_branch (agreeOff_row? ht (Table.plain_row? h.base_plain) hplain) hrt
    (h.mem_ours.1 hrow)

theorem judged (take : Bool) (hrow : row ∈ diffRows E b r) :
    JudgedAs E b.key b.columns take (b.row? row.key) (r.row? row.key) (m.row? row.key) row
      (judge row (byKey (tableDiff E name b m) row.key)) :=
  h.judged_of_rowsAt take h.main_columns (Table.rowsAt_of_distinct h.main_distinct _)
    (Table.plain_row? h.main_plain) hrow

omit h

theorem mem_changes (hd : d ∈ (tablePlan E name b r m).changes) :
    ∃ row ∈ diffRows E b r, judge row (byKey (tableDiff E name b m) row.key) = .change d := by
  obtain ⟨row, hrow, hv⟩ := mem_filterMap.1 hd
  exact ⟨row, hrow, Verdict.change?_eq_some.1 hv⟩

theorem mem_conflicts (hc : c ∈ (tablePlan E name b r m).conflicts) :
    ∃ row ∈ diffRows E b r, judge row (byKey (tableDiff E name b m) row.key) = .conflict c := by
  obtain ⟨row, hrow, hv⟩ := mem_filterMap.1 hc
  exact ⟨row, hrow, Verdict.conflict?_eq_some.1 hv⟩

include h

theorem turns_of_mem_changes (take : Bool)
    (hd : d ∈ (tablePlan E name b r m).changes) :
    ¬ ConflictAt b r m d.key ∧
      Turns d (r.row? d.key) (m.row? d.key) (mergedAt take b r m d.key) := by
  obtain ⟨row, hrow, hv⟩ := mem_changes hd
  rcases h.judged take hrow with ⟨hj, -⟩ | ⟨d', hj, hkey, hc, ht⟩ | ⟨main, hj, -⟩
  · cases hj.symm.trans hv
  · cases hj.symm.trans hv
    rw [hkey]
    exact ⟨hc, ht⟩
  · cases hj.symm.trans hv

/-- A reported conflict is one, and shows how the two sides changed the row. -/
theorem conflictAt_of_mem
    (hc : c ∈ (tablePlan E name b r m).conflicts) :
    ConflictAt b r m c.branch.key ∧
      rowDiff E b.key b.columns (b.row? c.branch.key) (r.row? c.branch.key) = some c.branch := by
  obtain ⟨row, hrow, hv⟩ := mem_conflicts hc
  rcases h.judged true hrow with ⟨hj, -⟩ | ⟨d', hj, -⟩ | ⟨main, hj, -, hcon⟩
  · cases hj.symm.trans hv
  · cases hj.symm.trans hv
  · cases hj.symm.trans hv
    exact ⟨hcon, h.mem_ours.1 hrow⟩

theorem exists_ours (E : Engine) (hk : r.row? k ≠ b.row? k) :
    ∃ row ∈ diffRows E b r, row.key = k := by
  have hne : rowDiff E b.key b.columns (b.row? k) (r.row? k) ≠ none := fun hnone =>
    hk ((rowDiff_eq_none h.agreeOff_branch).1 hnone)
  obtain ⟨row, hdiff⟩ := ne_none_iff_exists'.1 hne
  have hfib : row ∈ fiber RowDiff.key k (diffRows E b r) := by
    rw [h.fiber_ours, hdiff]
    simp
  exact ⟨row, mem_fiber.1 hfib⟩

theorem ne_of_mem_ours (hrow : row ∈ diffRows E b r) :
    r.row? row.key ≠ b.row? row.key := by
  intro heq
  have hdiff := h.mem_ours.1 hrow
  simp [(rowDiff_eq_none h.agreeOff_branch).2 heq] at hdiff

theorem exists_mem_conflicts (E : Engine) (name : String)
    (hk : ConflictAt b r m k) :
    ∃ c ∈ (tablePlan E name b r m).conflicts, c.branch.key = k := by
  obtain ⟨row, hrow, rfl⟩ := h.exists_ours E hk.branch_ne
  rcases h.judged true hrow with ⟨-, hc, -⟩ | ⟨d, -, -, hc, -⟩ | ⟨main, hj, -, -⟩
  · exact absurd hk hc
  · exact absurd hk hc
  · exact ⟨⟨row, main⟩, mem_filterMap.2 ⟨row, hrow, congrArg Verdict.conflict? hj⟩, rfl⟩

theorem mergedAt_of_not_mem
    (hk : ¬ ConflictAt b r m k) (hno : ∀ d ∈ (tablePlan E name b r m).changes, d.key ≠ k) :
    mergedAt take b r m k = m.row? k := by
  by_cases hne : r.row? k = b.row? k
  · rw [mergedAt, hne, ThreeWay.merge_base_left]
  obtain ⟨row, hrow, rfl⟩ := h.exists_ours E hne
  rcases h.judged take hrow with ⟨-, -, hm⟩ | ⟨d, hj, hkey, -⟩ | ⟨main, -, -, hc⟩
  · exact hm
  · exact absurd hkey (hno d (mem_filterMap.2 ⟨row, hrow, congrArg Verdict.change? hj⟩))
  · exact absurd hc hk

theorem distinct_changes :
    Keyed.Distinct RowDiff.key (tablePlan E name b r m).changes :=
  h.distinct_ours.filterMap _ fun _ _ _ hv => judge_row.1 _ hv

theorem distinct_conflicts (E : Engine) (name : String) :
    Keyed.Distinct (fun c : Conflict => c.branch.key) (tablePlan E name b r m).conflicts :=
  h.distinct_ours.filterMap _ fun _ _ _ hv => by rw [(judge_row).2 _ hv]

end Comparable

end SqlAnywhere
