import SqlAnywhere.Merge3.Plan

/-!
# What applying a plan does to a table

The statements of `Apply` find rows by key, and write rows of the branch.  Where columns compare
by exact value:

* `rowTable_spec` — a planned change rewrites the row with its key, and no other row
* `takeTable_ok` — taking a row of the branch also removes every row that collides with it
-/

namespace SqlAnywhere

open List Option Keyed

/-- The statements are run on a table with the branch's columns and key, all compared by exact
value, and the branch has no key twice. -/
structure Apply.Fits (a : Apply) (t : Table) : Prop where
  key : a.key = t.key
  columns : a.branch.columns = t.columns
  exact : Exact t.columns
  distinct : Keyed.Distinct a.branch.keyVals a.branch.rows

namespace Apply

variable {a : Apply} {t t' : Table} {k : List Value} {d : RowDiff} {M X : Option Row} {x : Row}
  {cs : List Conflict}

namespace Fits

variable (hf : a.Fits t)
include hf

theorem withRows (rows : List (RowOf t.columns)) : a.Fits (t.withRows rows) :=
  ⟨hf.key, hf.columns, hf.exact, hf.distinct⟩

theorem branch_key : a.branch.key = t.key := by
  rw [Table.key, Table.key, hf.columns]

theorem matchesKey_main (hlen : k.length = t.key.length) (ρ : RowOf t.columns) :
    matchesKey t.columns a.key k ρ.val = decide (t.keyVals ρ = k) := by
  rw [hf.exact.matchesKey_eq (by rw [hf.key, hlen]), hf.key]
  rfl

theorem matchesKey_branch (hlen : k.length = t.key.length)
    (ρ : RowOf a.branch.columns) :
    matchesKey a.branch.columns a.key k ρ.val = decide (a.branch.keyVals ρ = k) := by
  have hx : Exact a.branch.columns := by
    rw [hf.columns]
    exact hf.exact
  rw [hx.matchesKey_eq (by rw [hf.key, hlen]), hf.key, Table.keyVals, hf.branch_key]

variable (hx : a.branch.row? k = some x)
include hx

theorem key_of_row? :
    t.key.map x = k := by
  obtain ⟨ρ, -, rfl, hk⟩ := Table.row?_eq_some hx
  rw [← hf.branch_key]
  exact hk

theorem length_of_row? :
    k.length = t.key.length := by
  rw [← hf.key_of_row? hx, length_map]

theorem off_of_row? (c : String)
    (hc : c ∉ fieldNames t.columns) : x c = .null := by
  obtain ⟨ρ, -, rfl, -⟩ := Table.row?_eq_some hx
  exact ρ.off c (by rwa [hf.columns])

theorem source_eq :
    a.source k = [x] := by
  have hlen := hf.length_of_row? hx
  have hfilter : a.branch.rows.filter
      (fun ρ => matchesKey a.branch.columns a.key k ρ.val) =
        fiber a.branch.keyVals k a.branch.rows := by
    rw [fiber]
    congr 1
    funext ρ
    rw [hf.matchesKey_branch hlen]
  rw [source, hfilter, hf.distinct.fiber_eq]
  obtain ⟨ρ, hρ, rfl⟩ := map_eq_some_iff.1 hx
  rw [hρ, toList_some, map_singleton, singleton_inj]
  funext c
  split_ifs with hc
  · rfl
  refine (ρ.off c fun hmem => hc ?_).symm
  rw [fieldNames, mem_append] at hmem
  rw [allColumns, hf.key, ← hf.branch_key, Table.key]
  rcases hmem with hmem | hmem
  · split_ifs
    · exact mem_cons_of_mem _ hmem
    · exact hmem
  · split_ifs at hmem with hrow
    · rw [if_pos hrow, mem_singleton.1 hmem]
      exact mem_cons_self
    · simp at hmem

omit hx

theorem assign_eq (hx : a.branch.row? d.key = some x) (y : Row) :
    a.assign d y = fun c => if c ∈ d.columns.map (·.column) then x c else y c := by
  have hlen := hf.length_of_row? hx
  have hfind : a.branch.rows.find?
      (fun ρ => matchesKey a.branch.columns a.key d.key ρ.val) =
        get a.branch.keyVals d.key a.branch.rows := by
    rw [Keyed.get, Keyed.fiber, List.head?_filter]
    congr 1
    funext ρ
    rw [hf.matchesKey_branch hlen]
  obtain ⟨ρ, hρ, rfl⟩ := map_eq_some_iff.1 hx
  funext c
  rw [assign, hfind, hρ]

end Fits

theorem runTable_ok {stmt : Table → Except SqlError (Table × ℕ)} (h : a.runTable stmt k t = .ok t') :
    stmt t = .ok (t', 1) := by
  unfold runTable at h
  split at h
  · cases h
  rename_i t₁ changed heq
  split_ifs at h with hne
  cases h
  rw [heq, not_not.1 hne]

theorem mem_rowsAt (hx : x ∈ t.rowsAt k) : ∃ ρ ∈ t.rows, ρ.val = x ∧ t.keyVals ρ = k := by
  obtain ⟨ρ, hρ, rfl⟩ := mem_map.1 hx
  exact ⟨ρ, (mem_fiber.1 hρ).1, rfl, (mem_fiber.1 hρ).2⟩

theorem length_of_mem_rowsAt (hx : x ∈ t.rowsAt k) : k.length = t.key.length := by
  obtain ⟨ρ, -, -, hk⟩ := mem_rowsAt hx
  rw [← hk, Table.keyVals, length_map]

/-- The effect of a statement on the rows under each key: `t'` has the rows `X` under `k` and what
`t` has under every other key. -/
def Writes (k : List Value) (X : Option Row) (t t' : Table) : Prop :=
  (∃ rows, t' = t.withRows rows) ∧ t'.rowsAt k = X.toList ∧
    ∀ k', k' ≠ k → t'.rowsAt k' = t.rowsAt k'

variable (hf : a.Fits t)
include hf

theorem writes_delete (hlen : k.length = t.key.length) :
    Writes k none t (t.delete (matchesKey t.columns a.key k)).1 := by
  refine ⟨⟨_, rfl⟩, ?_, fun k' hk' => ?_⟩
  · change (fiber t.keyVals k (t.rows.filter _)).map _ = _
    rw [fiber_filter_of_false]
    · rfl
    · intro ρ _ hρ
      simp [hf.matchesKey_main hlen, hρ]
  · change (fiber t.keyVals k' (t.rows.filter _)).map _ = _
    rw [fiber_filter_of_true]
    · rfl
    · intro ρ _ hρ
      simp [hf.matchesKey_main hlen, hρ, hk']

theorem writes_insert (hx : a.branch.row? k = some x)
    (hnone : t.rowsAt k = []) : Writes k (some x) t (t.withRows (t.rows ++ [RowOf.ofFn t.columns x])) := by
  have hval := RowOf.ofFn_val (hf.off_of_row? hx)
  have hkey : t.keyVals (RowOf.ofFn t.columns x) = k := by
    rw [Table.keyVals, hval, hf.key_of_row? hx]
  refine ⟨⟨_, rfl⟩, ?_, fun k' hk' => ?_⟩
  · rw [Table.rowsAt_withRows, fiber_append, map_append, ← Table.rowsAt, hnone]
    simp [fiber_cons, hkey, hval]
  · rw [Table.rowsAt_withRows, fiber_append, map_append, ← Table.rowsAt]
    simp [fiber_cons, hkey, Ne.symm hk']

/-- The row an `UPDATE` by key leaves: the listed columns are the branch's. -/
theorem writes_update {x y : Row} (hx : a.branch.row? d.key = some x)
    (hy : t.rowsAt d.key = [y])
    (h : t.update (matchesKey t.columns a.key d.key) (a.assign d) = .ok (t', 1)) :
    Writes d.key (some (fun c => if c ∈ d.columns.map (·.column) then x c else y c)) t t' := by
  have hlen := hf.length_of_row? hx
  obtain ⟨rows, -, rfl, hrows⟩ := Table.update_ok h
  have hval : ∀ ρ ∈ t.rows, t.keyVals ρ = d.key → ρ.val = y := by
    intro ρ hρ hk
    have hmem : ρ.val ∈ t.rowsAt d.key := mem_map_of_mem (mem_fiber.2 ⟨hρ, hk⟩)
    rw [hy] at hmem
    exact mem_singleton.1 hmem
  obtain ⟨ρ₀, -, rfl, hk₀⟩ := mem_rowsAt (t := t) (k := d.key) (x := y) (by simp [hy])
  have hnew : ∀ ρ ∈ t.rows, t.keyVals ρ = d.key → (RowOf.ofFn t.columns (a.assign d ρ.val)).val =
      fun c => if c ∈ d.columns.map (·.column) then x c else ρ₀.val c := by
    intro ρ hρ hk
    rw [hf.assign_eq hx, hval ρ hρ hk]
    refine RowOf.ofFn_val fun c hc => ?_
    split_ifs
    · exact hf.off_of_row? hx c hc
    · exact ρ₀.off c hc
  -- both rows have the key, so it stays whichever columns are written
  have hkeep : ∀ ρ ∈ t.rows, t.keyVals (if matchesKey t.columns a.key d.key ρ.val then
      RowOf.ofFn t.columns (a.assign d ρ.val) else ρ) = t.keyVals ρ := by
    intro ρ hρ
    rw [hf.matchesKey_main hlen]
    by_cases hk : t.keyVals ρ = d.key
    · rw [if_pos (by simpa using hk), hk, Table.keyVals, hnew ρ hρ hk, ← hf.key_of_row? hx]
      refine map_congr_left fun c hc => ?_
      split_ifs
      · rfl
      · exact map_inj_left.1 (hk₀.trans (hf.key_of_row? hx).symm) c hc
    · rw [if_neg (by simpa using hk)]
  have hfiber : ∀ k', (t.withRows rows).rowsAt k' = ((fiber t.keyVals k' t.rows).map (fun ρ =>
      if matchesKey t.columns a.key d.key ρ.val then RowOf.ofFn t.columns (a.assign d ρ.val)
      else ρ)).map (·.val) := by
    intro k'
    rw [Table.rowsAt_withRows, hrows, fiber_map (f := t.keyVals) _ hkeep]
  refine ⟨⟨rows, rfl⟩, ?_, fun k' hk' => ?_⟩
  · obtain ⟨ρ, hρ, -⟩ := map_eq_singleton_iff.1 hy
    have hmem : ρ ∈ fiber t.keyVals d.key t.rows := by simp [hρ]
    obtain ⟨hin, hk⟩ := mem_fiber.1 hmem
    rw [hfiber, hρ, map_singleton, map_singleton, hf.matchesKey_main hlen,
      if_pos (by simpa using hk), hnew ρ hin hk, toList_some]
  · rw [hfiber, Table.rowsAt, List.map_map]
    refine map_congr_left fun ρ hρ => ?_
    have hne : t.keyVals ρ ≠ d.key := by rwa [(mem_fiber.1 hρ).2]
    simp [hf.matchesKey_main hlen, hne]

/-- **A planned change writes its row**: under its key the table has the merged row afterwards,
and every other key is left alone. -/
theorem rowTable_spec (ht : Turns d (a.branch.row? d.key) M X)
    (hM : t.rowsAt d.key = M.toList) (h : a.rowTable t d = .ok t') : Writes d.key X t t' := by
  have hstmt := runTable_ok h
  unfold statement at hstmt
  unfold Turns at ht
  cases hkind : d.kind with
  | deleted =>
    simp only [hkind] at hstmt ht
    obtain ⟨hsome, rfl⟩ := ht
    obtain ⟨y, rfl⟩ := isSome_iff_exists.1 hsome
    have hlen : d.key.length = t.key.length := length_of_mem_rowsAt (x := y) (by simp [hM])
    obtain rfl : (t.delete (matchesKey t.columns a.key d.key)).1 = t' :=
      congrArg Prod.fst (Except.ok.inj hstmt)
    exact writes_delete hf hlen
  | inserted =>
    simp only [hkind] at hstmt ht
    obtain ⟨rfl, hsome, rfl⟩ := ht
    obtain ⟨x, hx⟩ := isSome_iff_exists.1 hsome
    rw [hf.source_eq hx] at hstmt
    obtain ⟨-, rfl⟩ := Table.insert_singleton_ok hstmt
    rw [hx]
    exact writes_insert hf hx hM
  | updated =>
    simp only [hkind] at hstmt ht
    obtain ⟨x, y, hx, rfl, -, -, rfl⟩ := ht
    exact writes_update hf hx hM hstmt

omit hf

/-! ### Constraints -/

theorem consistent_withRows_append {rows : List (RowOf t.columns)} {ρ : RowOf t.columns}
    (hx : Exact t.columns) (hrows : rows.Pairwise (fun x y => t.violates x.val y.val = false))
    (hρ : ∀ s ∈ rows, t.violates ρ.val s.val = false) :
    (t.withRows (rows ++ [ρ])).Consistent := by
  refine pairwise_append.2 ⟨hrows, pairwise_singleton _ _, fun s hs x hmem => ?_⟩
  rw [mem_singleton.1 hmem]
  exact (Table.violates_comm hx _ _).trans (hρ s hs)

theorem consistent_statement (hx : Exact t.columns) (hc : t.Consistent)
    (h : a.statement d t = .ok (t', 1)) :
    (∃ rows, t' = t.withRows rows) ∧ t'.Consistent := by
  unfold statement at h
  split at h
  · obtain rfl : (t.delete (matchesKey t.columns a.key d.key)).1 = t' :=
      congrArg Prod.fst (Except.ok.inj h)
    exact ⟨⟨_, rfl⟩, List.Pairwise.filter _ hc⟩
  · obtain ⟨f, hsrc⟩ := Table.exists_of_one h
    rw [hsrc] at h
    obtain ⟨hno, rfl⟩ := Table.insert_singleton_ok h
    exact ⟨⟨_, rfl⟩, consistent_withRows_append hx hc hno⟩
  · obtain ⟨rows, hrows, rfl, -⟩ := Table.update_ok h
    exact ⟨⟨rows, rfl⟩, Table.updateRows_pairwise hx hrows hc⟩

theorem consistent_takeStatement (hx : Exact t.columns) (hc : t.Consistent)
    (h : a.takeStatement d t = .ok (t', 1)) :
    (∃ rows, t' = t.withRows rows) ∧ t'.Consistent := by
  unfold takeStatement at h
  split_ifs at h
  · exact consistent_statement hx hc h
  obtain ⟨f, hsrc⟩ := Table.exists_of_one h
  rw [hsrc] at h
  obtain rfl := Table.replace_singleton_ok h
  refine ⟨⟨_, rfl⟩, consistent_withRows_append hx (List.Pairwise.filter _ hc) fun s hs => ?_⟩
  simpa using (mem_filter.1 hs).2

/-- SQLite keeps the constraints, whatever rows are written. -/
theorem consistent_foldlM {δ : Type} {step : Table → δ → Except Error Table} {ds : List δ}
    (hstep : ∀ {s d s'}, Exact s.columns → s.Consistent → step s d = .ok s' →
      (∃ rows, s' = s.withRows rows) ∧ s'.Consistent) (hx : Exact t.columns) (hc : t.Consistent)
    (h : ds.foldlM step t = .ok t') : (∃ rows, t' = t.withRows rows) ∧ t'.Consistent := by
  refine foldlM_invariant (fun s => (∃ rows, s = t.withRows rows) ∧ s.Consistent)
    (fun s d s₁ _ hs hrun => ?_) h ⟨⟨t.rows, rfl⟩, hc⟩
  obtain ⟨⟨rows, rfl⟩, hcons⟩ := hs
  obtain ⟨⟨rows', rfl⟩, hcons'⟩ := hstep (s := t.withRows rows) hx hcons hrun
  exact ⟨⟨rows', rfl⟩, hcons'⟩

/-! ### Taking the branch's rows -/

/-- Taking the conflict `c` removes the row `x` with key `k`: the branch has no such row, or `x`
is in the way of the branch's row. -/
def removes (a : Apply) (t : Table) (c : Conflict) (k : List Value) (x : Row) : Bool :=
  match a.branch.row? c.branch.key with
  | none => k = c.branch.key
  | some y => t.violates y x

/-- The difference shown in a conflict says whether the branch still has the row. -/
def Shows (a : Apply) (t : Table) (c : Conflict) : Prop :=
  (c.branch.kind = .deleted ↔ a.branch.row? c.branch.key = none) ∧
    c.branch.key.length = t.key.length

theorem takeTable_ok (hf : a.Fits t) {c : Conflict} (hs : a.Shows t c)
    (h : a.takeTable t c = .ok t') :
    t' = t.withRows (t.rows.filter (fun ρ => !a.removes t c (t.keyVals ρ) ρ.val) ++
      (a.branch.row? c.branch.key).toList.map (RowOf.ofFn t.columns)) := by
  have hstmt := runTable_ok h
  unfold takeStatement at hstmt
  cases hrow : a.branch.row? c.branch.key with
  | none =>
    rw [if_pos (hs.1.2 hrow)] at hstmt
    unfold statement at hstmt
    simp only [hs.1.2 hrow] at hstmt
    obtain rfl : (t.delete (matchesKey t.columns a.key c.branch.key)).1 = t' :=
      congrArg Prod.fst (Except.ok.inj hstmt)
    simp only [Table.delete, Table.withRows, removes, hrow, toList_none, map_nil,
      append_nil, hf.matchesKey_main hs.2]
  | some y =>
    have hkind : c.branch.kind ≠ .deleted := fun hk => by simp [hs.1.1 hk] at hrow
    rw [if_neg hkind, hf.source_eq hrow] at hstmt
    rw [Table.replace_singleton_ok hstmt, RowOf.ofFn_val (hf.off_of_row? hrow)]
    simp only [removes, hrow, toList_some, map_singleton]

/-- The rows the branch has for the conflicts `cs`. -/
def taken (a : Apply) (cs : List Conflict) : List Row :=
  cs.filterMap (fun c => a.branch.row? c.branch.key)

/-- **Taking conflicts one after the other** removes the rows that are in the way of any of them
and adds the branch's rows, as long as these are not in each other's way. -/
theorem foldlM_takeTable (hf : a.Fits t) (hs : ∀ c ∈ cs, a.Shows t c)
    (hd : Keyed.Distinct (fun c : Conflict => c.branch.key) cs)
    (hfree : ∀ c ∈ cs, ∀ c' ∈ cs, c.branch.key ≠ c'.branch.key → ∀ x y,
      a.branch.row? c.branch.key = some x → a.branch.row? c'.branch.key = some y →
        t.violates y x = false) (h : cs.foldlM a.takeTable t = .ok t') :
    t' = t.withRows (t.rows.filter (fun ρ => !cs.any (fun c => a.removes t c (t.keyVals ρ) ρ.val)) ++
      (a.taken cs).map (RowOf.ofFn t.columns)) := by
  induction cs generalizing t with
  | nil =>
    rw [foldlM_nil_ok h]
    simp [taken, Table.withRows]
  | cons c cs ih =>
    obtain ⟨t₁, h₁, h₂⟩ := foldlM_cons_ok h
    obtain rfl := takeTable_ok hf (hs c mem_cons_self) h₁
    refine (ih ?_ ?_ hd.of_cons ?_ h₂).trans ?_
    · exact hf.withRows _
    · exact fun c' hc' => hs c' (mem_cons_of_mem _ hc')
    · exact fun c' hc' c'' hc'' =>
        hfree c' (mem_cons_of_mem _ hc') c'' (mem_cons_of_mem _ hc'')
    -- the row just taken is not removed by the conflicts that follow
    have hkeep : ((a.branch.row? c.branch.key).toList.map (RowOf.ofFn t.columns)).filter
        (fun ρ => !cs.any (fun c' => a.removes t c' (t.keyVals ρ) ρ.val)) =
          (a.branch.row? c.branch.key).toList.map (RowOf.ofFn t.columns) := by
      rw [filter_eq_self]
      intro ρ hρ
      obtain ⟨x, hx, rfl⟩ := mem_map.1 hρ
      rw [mem_toList] at hx
      have hval := RowOf.ofFn_val (hf.off_of_row? hx)
      have hkey : t.keyVals (RowOf.ofFn t.columns x) = c.branch.key := by
        rw [Table.keyVals, hval, hf.key_of_row? hx]
      rw [hkey, hval, Bool.not_eq_true', List.any_eq_false]
      intro c' hc'
      have hne := hd.ne_of_mem hc'
      unfold removes
      split
      · simpa using Ne.symm hne
      · rename_i y hy
        simpa using hfree c mem_cons_self c' (mem_cons_of_mem _ hc') (Ne.symm hne) x y hx hy
    change t.withRows (filter (fun ρ => !cs.any (fun c' => a.removes t c' (t.keyVals ρ) ρ.val))
      (_ ++ _) ++ (a.taken cs).map (RowOf.ofFn t.columns)) = _
    rw [List.filter_append, hkeep, List.filter_filter, List.append_assoc, ← List.map_append]
    congr 2
    · congr 1
      funext ρ
      simp [Bool.and_comm]
    · congr 1
      rw [taken, taken, filterMap_cons]
      cases a.branch.row? c.branch.key <;> rfl

theorem rowsAt_take (hf : a.Fits t)
    (hd : Keyed.Distinct (fun c : Conflict => c.branch.key) cs) (k : List Value) :
    (t.withRows (t.rows.filter (fun ρ => !cs.any (fun c => a.removes t c (t.keyVals ρ) ρ.val)) ++
      (a.taken cs).map (RowOf.ofFn t.columns))).rowsAt k =
    (t.rowsAt k).filter (fun x => !cs.any (fun c => a.removes t c k x)) ++
      ((get (fun c : Conflict => c.branch.key) k cs).bind
        (fun c => a.branch.row? c.branch.key)).toList := by
  rw [Table.rowsAt_withRows, fiber_append, map_append]
  congr 1
  · rw [Keyed.fiber_filter, Table.rowsAt, List.filter_map]
    congr 1
    refine filter_congr fun ρ hρ => ?_
    rw [(mem_fiber.1 hρ).2, Function.comp_apply]
  · have hkey : ∀ x ∈ a.taken cs, t.keyVals (RowOf.ofFn t.columns x) = t.key.map x := by
      intro x hx
      obtain ⟨c, -, hc⟩ := mem_filterMap.1 hx
      rw [Table.keyVals, RowOf.ofFn_val (hf.off_of_row? hc)]
    have hval : ∀ x ∈ a.taken cs, (RowOf.ofFn t.columns x).val = x := by
      intro x hx
      obtain ⟨c, -, hc⟩ := mem_filterMap.1 hx
      exact RowOf.ofFn_val (hf.off_of_row? hc)
    rw [Keyed.fiber_map (f := fun x => t.key.map x) _ hkey, List.map_map]
    have hmap : (fiber (fun x => t.key.map x) k (a.taken cs)).map
        ((·.val) ∘ RowOf.ofFn t.columns) = fiber (fun x => t.key.map x) k (a.taken cs) :=
      (map_congr_left fun x hx => hval x (mem_fiber.1 hx).1).trans (map_id _)
    rw [hmap, taken, fiber_filterMap (f := fun c : Conflict => c.branch.key) _
      fun c _ x hx => hf.key_of_row? hx, hd.fiber_eq]
    cases get (fun c : Conflict => c.branch.key) k cs with
    | none => rfl
    | some c =>
      rw [toList_some, filterMap_cons, bind_some]
      cases a.branch.row? c.branch.key <;> rfl

end Apply

theorem inKindOrder_perm (l : List RowDiff) : (inKindOrder l).Perm l := by
  have heq : ∀ l : List RowDiff, inKindOrder l = l.filter (·.kind = .deleted) ++
      (l.filter (·.kind = .updated) ++ l.filter (·.kind = .inserted)) := by
    intro l
    simp [inKindOrder]
  induction l with
  | nil => exact List.Perm.refl _
  | cons d l ih =>
    rw [heq] at ih ⊢
    cases hd : d.kind with
    | deleted => simpa [filter_cons, hd] using ih
    | updated =>
      simp only [filter_cons, hd, reduceCtorEq, decide_false, decide_true, if_true,
        Bool.false_eq_true, if_false, cons_append]
      exact perm_middle.trans (ih.cons d)
    | inserted =>
      simp only [filter_cons, hd, reduceCtorEq, decide_false, decide_true, if_true,
        Bool.false_eq_true, if_false]
      rw [← append_assoc]
      rw [← append_assoc] at ih
      exact perm_middle.trans (ih.cons d)

end SqlAnywhere
