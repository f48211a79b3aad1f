import SqlAnywhere.Merge3.Apply

/-!
# An applied merge is the three-way merge

For tables with the same columns, exact comparison and distinct keys, the rows a merge leaves are
the three-way merges of base, branch and main, key by key, except for one thing: a conflicting
row is taken from the branch with `INSERT OR REPLACE`, which makes room by the UNIQUE constraints
of the table and not by its key.

* `applyRows_merged_iff` — one table
-/

namespace SqlAnywhere

open List Option Keyed

/-- Conflicts are settled for the branch. -/
def OnConflict.takes (on : OnConflict) : Bool := on = .takeBranch

/-- The statements for one table's part of a plan. -/
def applyRows (a : Apply) (on : OnConflict) (tp : TablePlan) (t : Table) : Except Error Table := do
  let t ← (inKindOrder tp.changes).foldlM a.rowTable t
  if on = .takeBranch then tp.conflicts.foldlM a.takeTable t else return t

section OneTable

variable {E : Engine} {name : String} {b r m t t₁ : Table} {on : OnConflict} {take : Bool}
  {k : List Value} {x : Row} {rows : List (RowOf m.columns)}

/-- The writer that `merge_in` sets up for a table of the plan. -/
def applyFor (name : String) (r : Table) : Apply := ⟨name, r.key, r⟩

theorem Comparable.main_exact (h : Comparable b r m) : Exact m.columns := by
  rw [h.main_columns]
  exact h.exact

theorem Comparable.fits (h : Comparable b r m) : (applyFor name r).Fits m where
  key := h.branch_key.trans h.main_key.symm
  columns := h.branch_columns.trans h.main_columns.symm
  exact := h.main_exact
  distinct := h.branch_distinct

/-- The changes of the plan leave the merged row under every key without a conflict, and main's
row under the others. -/
theorem Comparable.rowsAt_changes (h : Comparable b r m) (take : Bool)
    (hrun : (inKindOrder (tablePlan E name b r m).changes).foldlM (applyFor name r).rowTable m =
      .ok t₁) :
    (∃ rows, t₁ = m.withRows rows) ∧
      (∀ k, ConflictAt b r m k → t₁.rowsAt k = (m.row? k).toList) ∧
      ∀ k, ¬ ConflictAt b r m k → t₁.rowsAt k = (mergedAt take b r m k).toList := by
  have hperm := inKindOrder_perm (tablePlan E name b r m).changes
  have hmem : ∀ d, d ∈ inKindOrder (tablePlan E name b r m).changes ↔
      d ∈ (tablePlan E name b r m).changes := fun d => hperm.mem_iff
  obtain ⟨hshape, hin, hout⟩ := foldlM_local RowDiff.key
    (fun t k => t.rowsAt k) (fun t => ∃ rows, t = m.withRows rows)
    (fun k => m.rowsAt k) (fun d rows => rows = (mergedAt take b r m d.key).toList)
    (h.distinct_changes.perm hperm.symm)
    (fun t d t' hd hs hold hstep => by
      obtain ⟨rows, rfl⟩ := hs
      have ht := (h.turns_of_mem_changes take ((hmem d).1 hd)).2
      have hM : (m.withRows rows).rowsAt d.key = (m.row? d.key).toList :=
        hold.trans (Table.rowsAt_of_distinct h.main_distinct _)
      obtain ⟨⟨rows', rfl⟩, hown, hother⟩ :=
        Apply.rowTable_spec (h.fits.withRows rows) ht hM hstep
      exact ⟨⟨rows', rfl⟩, hown, hother⟩)
    ⟨m.rows, rfl⟩ (fun d _ => rfl) hrun
  have hout' : ∀ k, (∀ d ∈ (tablePlan E name b r m).changes, d.key ≠ k) →
      t₁.rowsAt k = (m.row? k).toList := by
    intro k hk
    exact (hout k fun d hd => hk d ((hmem d).1 hd)).trans
      (Table.rowsAt_of_distinct h.main_distinct k)
  refine ⟨hshape, fun k hk => hout' k fun d hd hkey => ?_, fun k hk => ?_⟩
  · subst hkey
    exact (h.turns_of_mem_changes take hd).1 hk
  · by_cases hd : ∃ d ∈ (tablePlan E name b r m).changes, d.key = k
    · obtain ⟨d, hd, rfl⟩ := hd
      exact hin d ((hmem d).2 hd)
    · have hno : ∀ d ∈ (tablePlan E name b r m).changes, d.key ≠ k :=
        fun d hd' hkey => hd ⟨d, hd', hkey⟩
      rw [hout' k hno, h.mergedAt_of_not_mem hk hno]

/-- What a merge with this choice needs to leave the merged rows: no two of them collide, and a
row that is replaced is in the way of a row taken from the branch.  A row with a NULL in its key
need not be: NULLs are distinct. -/
structure Clear (on : OnConflict) (b r m : Table) : Prop where
  merged : ∀ k k' x y, k ≠ k' → mergedAt on.takes b r m k = some x →
    mergedAt on.takes b r m k' = some y → m.violates x y = false
  replaced : on = .takeBranch → ∀ k x y, ConflictAt b r m k → Value.null ∈ k →
    m.row? k = some x → r.row? k = some y →
      ∃ k' y', ConflictAt b r m k' ∧ r.row? k' = some y' ∧ m.violates y' x = true

theorem applyRows_ok {a : Apply} {tp : TablePlan} (h : applyRows a on tp m = .ok t) :
    ∃ t₁, (inKindOrder tp.changes).foldlM a.rowTable m = .ok t₁ ∧
      ((on = .takeBranch ∧ tp.conflicts.foldlM a.takeTable t₁ = .ok t) ∨
        (on ≠ .takeBranch ∧ t = t₁)) := by
  unfold applyRows at h
  cases hc : (inKindOrder tp.changes).foldlM a.rowTable m with
  | error e => rw [hc] at h; cases h
  | ok t₁ =>
    rw [hc] at h
    split_ifs at h with hon
    · exact ⟨t₁, rfl, Or.inl ⟨hon, h⟩⟩
    · exact ⟨t₁, rfl, Or.inr ⟨hon, (Except.ok.inj h).symm⟩⟩

theorem violates_of_rowsAt (hx : Exact m.columns)
    (hc : (m.withRows rows).Consistent) {k k' : List Value} {x y : Row} (hk : k ≠ k')
    (hxk : x ∈ (m.withRows rows).rowsAt k) (hyk : y ∈ (m.withRows rows).rowsAt k') :
    m.violates x y = false := by
  obtain ⟨ρ, hρ, rfl, hkey⟩ := Apply.mem_rowsAt hxk
  obtain ⟨ρ', hρ', rfl, hkey'⟩ := Apply.mem_rowsAt hyk
  have hne : ρ ≠ ρ' := fun heq => hk (by rw [← hkey, ← hkey', heq])
  have hsymm : Std.Symm (fun x y : RowOf (m.withRows rows).columns =>
      (m.withRows rows).violates x.val y.val = false) :=
    ⟨fun x y hxy => (Table.violates_comm hx _ _).trans hxy⟩
  exact List.Pairwise.forall hc hρ hρ' hne

theorem Table.length_of_row? {t : Table} (hx : t.row? k = some x) :
    k.length = t.key.length := by
  obtain ⟨ρ, -, -, hk⟩ := Table.row?_eq_some hx
  rw [← hk, Table.keyVals, length_map]

theorem deleted_iff_of_rowDiff {key : List String} {cols : List Column} {o n : Option Row}
    {d : RowDiff} (h : rowDiff E key cols o n = some d) : d.kind = .deleted ↔ n = none := by
  cases o <;> cases n <;> simp only [rowDiff] at h
  case none.none => cases h
  case none.some | some.none =>
    cases h
    simp [Compare.insertedDiff, Compare.deletedDiff]
  case some.some =>
    split_ifs at h
    cases h
    simp [Compare.updatedDiff]

theorem Comparable.shows (h : Comparable b r m) {c : Conflict}
    (hc : c ∈ (tablePlan E name b r m).conflicts) : (applyFor name r).Shows m c := by
  obtain ⟨-, hdiff⟩ := h.conflictAt_of_mem hc
  refine ⟨deleted_iff_of_rowDiff hdiff, ?_⟩
  rw [h.main_key]
  cases hb : b.row? c.branch.key with
  | some x => exact Table.length_of_row? hb
  | none =>
    cases hr : r.row? c.branch.key with
    | none => simp [hb, hr, rowDiff] at hdiff
    | some y => rw [Table.length_of_row? hr, h.branch_key]

theorem mergedAt_of_conflict (hk : ConflictAt b r m k) :
    mergedAt take b r m k = if take then r.row? k else m.row? k :=
  ThreeWay.merge_of_conflict hk

variable (h : Comparable b r m)
include h

/-- Main's row under a conflicting key is removed when it is in the way of a taken row. -/
theorem Comparable.any_removes_iff {x y : Row}
    (hy : r.row? k = some y) :
    (tablePlan E name b r m).conflicts.any (fun c => (applyFor name r).removes m c k x) = true ↔
      ∃ k' y', ConflictAt b r m k' ∧ r.row? k' = some y' ∧ m.violates y' x = true := by
  rw [List.any_eq_true]
  constructor
  · rintro ⟨c, hc, hrem⟩
    unfold Apply.removes at hrem
    split at hrem
    · rename_i hnone
      have hk : k = c.branch.key := by simpa using hrem
      have hnone : r.row? c.branch.key = none := hnone
      rw [← hk, hy] at hnone
      cases hnone
    · rename_i y' hy'
      exact ⟨c.branch.key, y', (h.conflictAt_of_mem hc).1, hy', hrem⟩
  · rintro ⟨k', y', hk', hy', hviol⟩
    obtain ⟨c, hc, rfl⟩ := h.exists_mem_conflicts E name hk'
    refine ⟨c, hc, ?_⟩
    unfold Apply.removes
    rw [show (applyFor name r).branch.row? c.branch.key = some y' from hy']
    exact hviol

theorem Comparable.get_conflicts :
    (ConflictAt b r m k → (get (fun c : Conflict => c.branch.key) k
        (tablePlan E name b r m).conflicts).bind (fun c => r.row? c.branch.key) = r.row? k) ∧
      (¬ ConflictAt b r m k → get (fun c : Conflict => c.branch.key) k
        (tablePlan E name b r m).conflicts = none) := by
  refine ⟨fun hk => ?_, fun hk => ?_⟩
  · obtain ⟨c, hc, rfl⟩ := h.exists_mem_conflicts E name hk
    rw [(h.distinct_conflicts E name).get_eq_some.2 ⟨hc, rfl⟩, bind_some]
  · rw [get_eq_none]
    intro c hc hkey
    subst hkey
    exact hk (h.conflictAt_of_mem hc).1

theorem Comparable.rowsAt_of_keep (hon : on ≠ .takeBranch)
    (hrun : applyRows (applyFor name r) on (tablePlan E name b r m) m = .ok t) (k : List Value) :
    t.rowsAt k = (mergedAt false b r m k).toList := by
  obtain ⟨t₁, hch, hrest⟩ := applyRows_ok hrun
  obtain ⟨-, hconf, hclean⟩ := h.rowsAt_changes false hch
  rcases hrest with ⟨hon', -⟩ | ⟨-, rfl⟩
  · exact absurd hon' hon
  by_cases hk : ConflictAt b r m k
  · rw [hconf k hk, mergedAt_of_conflict hk]
    rfl
  · exact hclean k hk

omit h

/-- The row with key `k` stays when the conflicts of the plan are taken. -/
def stays (E : Engine) (name : String) (b r m : Table) (k : List Value) (x : Row) : Bool :=
  !(tablePlan E name b r m).conflicts.any (fun c => (applyFor name r).removes m c k x)

include h

/-- Taking the conflicts, when the taken rows do not collide: the changed rows that stay, and the
branch's rows. -/
theorem Comparable.rowsAt_of_take
    (hrun : applyRows (applyFor name r) .takeBranch (tablePlan E name b r m) m = .ok t)
    (hfree : ∀ k k' x y, k ≠ k' → ConflictAt b r m k → ConflictAt b r m k' →
      r.row? k = some x → r.row? k' = some y → m.violates y x = false) (k : List Value) :
    (ConflictAt b r m k → t.rowsAt k =
      (m.row? k).toList.filter (stays E name b r m k) ++ (r.row? k).toList) ∧
    (¬ ConflictAt b r m k → t.rowsAt k =
      (mergedAt true b r m k).toList.filter (stays E name b r m k)) := by
  obtain ⟨t₁, hch, ⟨-, htake⟩ | ⟨hon, -⟩⟩ := applyRows_ok hrun
  · obtain ⟨⟨rows, rfl⟩, hconf, hclean⟩ := h.rowsAt_changes true hch
    have hd := h.distinct_conflicts E name
    have hf : (applyFor name r).Fits (m.withRows rows) := h.fits.withRows rows
    have hrows : t.rowsAt k = ((m.withRows rows).rowsAt k).filter (stays E name b r m k) ++
        ((get (fun c : Conflict => c.branch.key) k (tablePlan E name b r m).conflicts).bind
          (fun c => r.row? c.branch.key)).toList := by
      rw [Apply.foldlM_takeTable hf (fun c hc => h.shows hc) hd
        (fun c hc c' hc' hne x y hx hy => hfree _ _ x y hne (h.conflictAt_of_mem hc).1
          (h.conflictAt_of_mem hc').1 hx hy) htake]
      exact Apply.rowsAt_take hf hd k
    refine ⟨fun hk => ?_, fun hk => ?_⟩
    · rw [hrows, hconf k hk, h.get_conflicts.1 hk]
    · rw [hrows, hclean k hk, h.get_conflicts.2 hk, bind_none, toList_none, append_nil]
  · exact absurd rfl hon

/-- A row is removed when it is under the key of a row the branch deleted, or in the way of one it
has. -/
theorem Comparable.filter_stays_of_free {xs : List Row}
    (hk : ¬ ConflictAt b r m k) (hfree : ∀ x ∈ xs, ∀ k' y, ConflictAt b r m k' →
      r.row? k' = some y → m.violates y x = false) : xs.filter (stays E name b r m k) = xs := by
  rw [filter_eq_self]
  intro x hx
  rw [stays, Bool.not_eq_true', List.any_eq_false]
  intro c hc
  have hkc := (h.conflictAt_of_mem hc).1
  unfold Apply.removes
  split
  · have hne : k ≠ c.branch.key := fun heq => hk (heq ▸ hkc)
    simpa using hne
  · rename_i y hy
    simp [hfree x hx _ y hkc hy]

theorem applyRows_shape (hm : m.Consistent)
    (hrun : applyRows (applyFor name r) on (tablePlan E name b r m) m = .ok t) :
    ∃ rows, t = m.withRows rows ∧ t.Consistent := by
  obtain ⟨t₁, hch, hrest⟩ := applyRows_ok hrun
  obtain ⟨⟨rows, rfl⟩, hcons₁⟩ := Apply.consistent_foldlM
    (fun hx hc hstep => Apply.consistent_statement hx hc (Apply.runTable_ok hstep))
    h.main_exact hm hch
  rcases hrest with ⟨-, htake⟩ | ⟨-, rfl⟩
  · obtain ⟨⟨rows', heq⟩, hcons⟩ := Apply.consistent_foldlM (t := m.withRows rows)
      (fun hx hc hstep => Apply.consistent_takeStatement hx hc (Apply.runTable_ok hstep))
      h.main_exact hcons₁ htake
    exact ⟨rows', heq, hcons⟩
  · exact ⟨rows, rfl, hcons₁⟩

/-- Main's row under a conflicting key is removed: deleted with the branch's, or in the way of a
taken row, its own successor unless there is a NULL in the key. -/
theorem Comparable.filter_stays_replaced
    (hnull : ∀ x y, ConflictAt b r m k → Value.null ∈ k → m.row? k = some x → r.row? k = some y →
      ∃ k' y', ConflictAt b r m k' ∧ r.row? k' = some y' ∧ m.violates y' x = true)
    (hk : ConflictAt b r m k) : (m.row? k).toList.filter (stays E name b r m k) = [] := by
  rw [filter_eq_nil_iff]
  intro x hx
  rw [mem_toList] at hx
  rw [stays, Bool.not_eq_true', Bool.not_eq_false]
  cases hr : r.row? k with
  | none =>
    obtain ⟨c, hc, rfl⟩ := h.exists_mem_conflicts E name hk
    refine any_eq_true.2 ⟨c, hc, ?_⟩
    unfold Apply.removes
    rw [show (applyFor name r).branch.row? c.branch.key = none from hr]
    simp
  | some y =>
    rw [h.any_removes_iff hr]
    by_cases hmem : Value.null ∈ k
    · exact hnull x y hk hmem hx hr
    refine ⟨k, y, hk, hr, ?_⟩
    have hkx : m.key.map x = k := by
      obtain ⟨ρ, -, rfl, hkey⟩ := Table.row?_eq_some hx
      exact hkey
    have hky : m.key.map y = k := h.fits.key_of_row? (a := applyFor name r) hr
    exact Table.violates_of_key h.main_exact (hky.trans hkx.symm) (by rwa [hky])

omit h

/-- The merged rows collide nowhere, if the table has them all and no others. -/
theorem merged_clear (hx : Exact m.columns)
    (hc : (m.withRows rows).Consistent)
    (hall : ∀ k, (m.withRows rows).rowsAt k = (mergedAt take b r m k).toList) :
    ∀ k k' x y, k ≠ k' → mergedAt take b r m k = some x → mergedAt take b r m k' = some y →
      m.violates x y = false := by
  intro k k' x y hne hxk hyk
  exact violates_of_rowsAt hx hc hne (by rw [hall k, hxk]; simp) (by rw [hall k', hyk]; simp)

/-- **One table.**  After the statements of its plan the rows under every key are the three-way
merge exactly when the merge is clear. -/
theorem applyRows_merged_iff (h : Comparable b r m) (hm : m.Consistent)
    (hrun : applyRows (applyFor name r) on (tablePlan E name b r m) m = .ok t) :
    (∀ k, t.rowsAt k = (mergedAt on.takes b r m k).toList) ↔ Clear on b r m := by
  obtain ⟨rows, rfl, hcons⟩ := applyRows_shape h hm hrun
  by_cases hon : on = .takeBranch
  · subst hon
    change (∀ k, (m.withRows rows).rowsAt k = (mergedAt true b r m k).toList) ↔ _
    -- where no two merged rows collide, the taken rows are not in each other's way
    have hrows := fun (hmerged : ∀ k k' x y, k ≠ k' → mergedAt true b r m k = some x →
        mergedAt true b r m k' = some y → m.violates x y = false) =>
      h.rowsAt_of_take hrun fun k k' x y hne hk hk' hxk hyk =>
        hmerged k' k y x (Ne.symm hne) (by rw [mergedAt_of_conflict hk', hyk]; rfl)
          (by rw [mergedAt_of_conflict hk, hxk]; rfl)
    constructor
    · intro hall
      have hmerged := merged_clear h.main_exact hcons hall
      refine ⟨hmerged, fun _ k x y hk _ hxk hyk => ?_⟩
      -- had main's row stayed, the table would have it under the key
      rw [← h.any_removes_iff hyk]
      by_contra hkept
      have hrow := (hrows hmerged k).1 hk
      rw [hall k, mergedAt_of_conflict hk, hxk, hyk, toList_some,
        filter_cons_of_pos (by simpa [stays] using hkept)] at hrow
      simp at hrow
    · intro hclear k
      by_cases hk : ConflictAt b r m k
      · rw [(hrows hclear.merged k).1 hk, h.filter_stays_replaced (hclear.replaced rfl k) hk,
          mergedAt_of_conflict hk, if_pos rfl, nil_append]
      · rw [(hrows hclear.merged k).2 hk]
        refine h.filter_stays_of_free hk fun x hxk k' y hk' hy => ?_
        rw [mem_toList] at hxk
        refine hclear.merged k' k y x (fun heq => hk (heq ▸ hk')) ?_ hxk
        exact (mergedAt_of_conflict hk').trans hy
  · -- nothing is taken: the changes alone leave the merged rows
    have htakes : on.takes = false := by simpa [OnConflict.takes] using hon
    have hall : ∀ k, (m.withRows rows).rowsAt k = (mergedAt on.takes b r m k).toList := by
      rw [htakes]
      exact h.rowsAt_of_keep hon hrun
    exact iff_of_true hall ⟨merged_clear h.main_exact hcons hall, fun hon' => absurd hon' hon⟩

end OneTable

end SqlAnywhere
