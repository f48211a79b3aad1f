import SqlAnywhere.Merge3.Database

/-!
# What a comparison reports

Whether `compare::table` tells how the stored rows of two versions differ, by exact value, under
whatever collations it compares them.

* `Reports` — each key is reported just when it changed, once
* `Tells` — `IS` tells stored keys apart, and rows under one key, and so does `==` their columns
* `table_reports_iff` — the first just where the second, if no version repeats a key
-/

namespace SqlAnywhere.Compare

open List

/-- The columns that are compared. -/
def common (b a : Table) : List Column :=
  a.columns.filter (fun c => (b.columns.map (·.name)).contains c.name)

/-- The rows `compare::table` returns. -/
def reported (E : Engine) (b a : Table) : List RowDiff :=
  inserted E b a a.key (common b a) ++ updated E b a a.key (common b a) ++
    deleted E b a a.key (common b a)

/-- The reported rows are those that differ in what is stored. -/
structure Reports (b a : Table) (rows : List RowDiff) : Prop where
  inserted : ∀ k, (∃ d ∈ rows, d.key = k ∧ d.kind = .inserted) ↔
    (∃ n ∈ a.rows, a.key.map n.val = k) ∧ ∀ o ∈ b.rows, a.key.map o.val ≠ k
  deleted : ∀ k, (∃ d ∈ rows, d.key = k ∧ d.kind = .deleted) ↔
    (∃ o ∈ b.rows, a.key.map o.val = k) ∧ ∀ n ∈ a.rows, a.key.map n.val ≠ k
  updated : ∀ k, (∃ d ∈ rows, d.key = k ∧ d.kind = .updated) ↔
    ∃ o ∈ b.rows, ∃ n ∈ a.rows, a.key.map o.val = k ∧ a.key.map n.val = k ∧
      ∃ c ∈ common b a, o.val c.name ≠ n.val c.name
  columns : ∀ d ∈ rows, d.kind = .updated → ∃ o ∈ b.rows, ∃ n ∈ a.rows,
    a.key.map o.val = d.key ∧ a.key.map n.val = d.key ∧
      d.columns.map (fun c => (c.column, c.before, c.after)) =
        ((common b a).filter (fun c => o.val c.name ≠ n.val c.name)).map
          (fun c => (c.name, some (o.val c.name), some (n.val c.name)))
  once : Keyed.Distinct RowDiff.key rows

/-- `IS` pairs rows with the same key only, and sees some of the difference of two such rows; and
`==` sees all of it. -/
def Tells (b a : Table) : Prop :=
  ∀ o ∈ b.rows, ∀ n ∈ a.rows,
    (joined b.columns a.key o.val n.val = true → a.key.map o.val = a.key.map n.val) ∧
    (a.key.map o.val = a.key.map n.val → (∃ c ∈ common b a, o.val c.name ≠ n.val c.name) →
      differs b.columns (common b a) o.val n.val = true ∧
      ∀ c ∈ common b a, valueEq (o.val c.name) (n.val c.name) = true ↔ o.val c.name = n.val c.name)

/-- `IS` is an equivalence on the values of every column. -/
structure Collating (columns : List Column) : Prop where
  refl : ∀ c x, same columns c x x = true
  symm : ∀ c x y, same columns c x y = true → same columns c y x = true
  trans : ∀ c x y z, same columns c x y = true → same columns c y z = true →
    same columns c x z = true

/-- The key identifies the rows of both versions, under the collations of the join. -/
structure Identified (b a : Table) : Prop where
  collating : Collating b.columns
  before_nodup : b.rows.Nodup
  after_nodup : a.rows.Nodup
  before_unique : ∀ x ∈ b.rows, ∀ y ∈ b.rows, joined b.columns a.key x.val y.val = true → x = y
  after_unique : ∀ x ∈ a.rows, ∀ y ∈ a.rows, joined b.columns a.key x.val y.val = true → x = y

section Rows

variable {E : Engine} {b a : Table} {d : RowDiff} {cols : List Column} {key : List String}

theorem mem_inserted :
    d ∈ inserted E b a key cols ↔
      ∃ n ∈ a.rows, (∀ o ∈ b.rows, joined b.columns key o.val n.val = false) ∧
        d = insertedDiff key cols n.val := by
  simp [inserted, orderByKey, mem_insertionSort, and_assoc, eq_comm (b := d)]

theorem mem_updated :
    d ∈ updated E b a key cols ↔
      ∃ n ∈ a.rows, ∃ o ∈ b.rows, joined b.columns key o.val n.val = true ∧
        differs b.columns cols o.val n.val = true ∧ d = updatedDiff E key cols o.val n.val := by
  simp [updated, partners, mem_insertionSort, and_assoc, eq_comm (b := d)]

theorem mem_deleted :
    d ∈ deleted E b a key cols ↔
      ∃ o ∈ b.rows, (∀ n ∈ a.rows, joined b.columns key o.val n.val = false) ∧
        d = deletedDiff key cols o.val := by
  simp [deleted, orderByKey, mem_insertionSort, and_assoc, eq_comm (b := d)]

end Rows

section Matching

variable {cols : List Column} {key : List String} {x y z : Row} (h : Collating cols)
include h

theorem joined_symm (hxy : joined cols key x y = true) :
    joined cols key y x = true := by
  rw [joined, all_eq_true] at hxy ⊢
  exact fun c hc => h.symm c _ _ (hxy c hc)

theorem joined_trans (hxy : joined cols key x y = true)
    (hyz : joined cols key y z = true) : joined cols key x z = true := by
  rw [joined, all_eq_true] at hxy hyz ⊢
  exact fun c hc => h.trans c _ _ _ (hxy c hc) (hyz c hc)

theorem joined_of_map_eq (hxy : key.map x = key.map y) :
    joined cols key x y = true := by
  rw [joined, all_eq_true]
  intro c hc
  rw [map_inj_left.1 hxy c hc]
  exact h.refl c _

end Matching

/-- What an updated row lists is right just where `==` sees the difference of every column. -/
theorem columns_updatedDiff_iff {E : Engine} {key : List String} {cols : List Column} {o n : Row} :
    (updatedDiff E key cols o n).columns.map (fun c => (c.column, c.before, c.after)) =
      (cols.filter (fun c => o c.name ≠ n c.name)).map
        (fun c => (c.name, some (o c.name), some (n c.name))) ↔
    ∀ c ∈ cols, valueEq (o c.name) (n c.name) = true ↔ o c.name = n c.name := by
  have hleft : ∀ c : Column, (c.name, some (o c.name), some (n c.name)) ∈
      (updatedDiff E key cols o n).columns.map (fun c => (c.column, c.before, c.after)) ↔
        c.name ∈ cols.map (·.name) ∧ valueEq (o c.name) (n c.name) = false := by
    intro c
    simp only [updatedDiff, map_filterMap, mem_filterMap, mem_map]
    grind
  have hright : ∀ c : Column, (c.name, some (o c.name), some (n c.name)) ∈
      (cols.filter (fun c => o c.name ≠ n c.name)).map
        (fun c => (c.name, some (o c.name), some (n c.name))) ↔
        c.name ∈ cols.map (·.name) ∧ o c.name ≠ n c.name := by
    intro c
    simp only [mem_map, mem_filter]
    grind
  constructor
  · intro heq c hc
    have hiff := (hleft c).symm.trans (heq ▸ hright c)
    have hname : c.name ∈ cols.map (·.name) := mem_map_of_mem hc
    cases hv : valueEq (o c.name) (n c.name) <;> simp_all
  · intro hall
    rw [updatedDiff, map_filterMap, ← filterMap_eq_filter, map_filterMap]
    refine filterMap_congr fun c hc => ?_
    split_ifs with hv
    · simp [(hall c hc).1 hv]
    · simp [mt (hall c hc).2 hv]

namespace Identified

variable {E : Engine} {b a : Table} (h : Identified b a)
include h

theorem eq_of_joined {o o' : RowOf b.columns} {n n' : RowOf a.columns} (ho : o ∈ b.rows)
    (ho' : o' ∈ b.rows) (hn : n ∈ a.rows) (hn' : n' ∈ a.rows)
    (hk : a.key.map n.val = a.key.map n'.val) (hj : joined b.columns a.key o.val n.val = true)
    (hj' : joined b.columns a.key o'.val n'.val = true) : n = n' ∧ o = o' := by
  obtain rfl := h.after_unique n hn n' hn' (joined_of_map_eq h.collating hk)
  exact ⟨rfl, h.before_unique o ho o' ho'
    (joined_trans h.collating hj (joined_symm h.collating hj'))⟩

theorem once : Keyed.Distinct RowDiff.key (reported E b a) := by
  have hmap {α : Type} {l : List α} {g : α → RowDiff} (hl : l.Nodup)
      (hg : ∀ x ∈ l, ∀ y ∈ l, (g x).key = (g y).key → x = y) :
      Keyed.Distinct RowDiff.key (l.map g) := by
    rw [Keyed.Distinct, map_map]
    exact hl.map_on hg
  have hsort {α : Type} (r : α → α → Prop) [DecidableRel r] {l : List α} (hl : l.Nodup) :
      (l.insertionSort r).Nodup := (perm_insertionSort r l).nodup_iff.2 hl
  have hins : Keyed.Distinct RowDiff.key (inserted E b a a.key (common b a)) := by
    refine hmap (hsort _ (h.after_nodup.filter _)) fun x hx y hy hk => ?_
    simp only [orderByKey, mem_insertionSort, mem_filter] at hx hy
    exact h.after_unique x hx.1 y hy.1 (joined_of_map_eq h.collating hk)
  have hdel : Keyed.Distinct RowDiff.key (deleted E b a a.key (common b a)) := by
    refine hmap (hsort _ (h.before_nodup.filter _)) fun x hx y hy hk => ?_
    simp only [orderByKey, mem_insertionSort, mem_filter] at hx hy
    exact h.before_unique x hx.1 y hy.1 (joined_of_map_eq h.collating hk)
  have hupd : Keyed.Distinct RowDiff.key (updated E b a a.key (common b a)) := by
    refine hmap (hsort _ (nodup_flatMap.2 ⟨fun n _ => ?_, ?_⟩)) fun p hp q hq hk => ?_
    · exact (h.before_nodup.filter _).map fun x y hxy => (Prod.mk.inj hxy).2
    · refine h.after_nodup.imp fun hne p hp hq => hne ?_
      obtain ⟨o, -, rfl⟩ := mem_map.1 hp
      obtain ⟨o', -, heq⟩ := mem_map.1 hq
      exact (Prod.mk.inj heq).1.symm
    · simp only [mem_insertionSort, mem_flatMap, mem_map, partners, mem_filter,
        Bool.and_eq_true] at hp hq
      obtain ⟨n, hn, o, ⟨ho, hj, -⟩, rfl⟩ := hp
      obtain ⟨n', hn', o', ⟨ho', hj', -⟩, rfl⟩ := hq
      obtain ⟨rfl, rfl⟩ := h.eq_of_joined ho ho' hn hn' hk hj hj'
      rfl
  rw [Keyed.Distinct, reported, map_append, map_append, nodup_append, nodup_append]
  refine ⟨⟨hins, hupd, ?_⟩, hdel, ?_⟩
  · intro k hk k' hk' heq
    obtain ⟨d, hd, rfl⟩ := mem_map.1 hk
    obtain ⟨d', hd', rfl⟩ := mem_map.1 hk'
    obtain ⟨n, hn, hno, rfl⟩ := mem_inserted.1 hd
    obtain ⟨n', hn', o, ho, hj, -, rfl⟩ := mem_updated.1 hd'
    obtain rfl := h.after_unique n hn n' hn' (joined_of_map_eq h.collating heq)
    simp [hno o ho] at hj
  · intro k hk k' hk' heq
    obtain ⟨d', hd', rfl⟩ := mem_map.1 hk'
    obtain ⟨o, ho, hno, rfl⟩ := mem_deleted.1 hd'
    have hnot : ∀ n ∈ a.rows, a.key.map n.val ≠ a.key.map o.val := by
      intro n hn hkey
      have := joined_of_map_eq h.collating hkey.symm
      simp [hno n hn] at this
    rw [mem_append] at hk
    rcases hk with hk | hk <;> obtain ⟨d, hd, rfl⟩ := mem_map.1 hk
    · obtain ⟨n, hn, -, rfl⟩ := mem_inserted.1 hd
      exact hnot n hn heq
    · obtain ⟨n, hn, o', -, -, -, rfl⟩ := mem_updated.1 hd
      exact hnot n hn heq

omit h in
theorem exists_reported (k : List Value) (kind : RowKind) :
    (∃ d ∈ reported E b a, d.key = k ∧ d.kind = kind) ↔
    match kind with
    | .inserted => ∃ n ∈ a.rows, (∀ o ∈ b.rows, joined b.columns a.key o.val n.val = false) ∧
        a.key.map n.val = k
    | .updated => ∃ n ∈ a.rows, ∃ o ∈ b.rows, joined b.columns a.key o.val n.val = true ∧
        differs b.columns (common b a) o.val n.val = true ∧ a.key.map n.val = k
    | .deleted => ∃ o ∈ b.rows, (∀ n ∈ a.rows, joined b.columns a.key o.val n.val = false) ∧
        a.key.map o.val = k := by
  simp only [reported, mem_append, mem_inserted, mem_updated, mem_deleted, or_and_right, exists_or]
  cases kind <;> simp [insertedDiff, updatedDiff, deletedDiff] <;> grind

theorem tells_of_reports (hr : Reports b a (reported E b a)) : Tells b a := by
  intro o ho n hn
  refine ⟨fun hj => ?_, fun hk hne => ?_⟩
  · by_contra hne
    have hins := (hr.inserted (a.key.map n.val)).2 ⟨⟨n, hn, rfl⟩, fun o' ho' hk => hne ?_⟩
    · obtain ⟨n', hn', hno, hk⟩ := (exists_reported _ _).1 hins
      obtain rfl := h.after_unique n' hn' n hn (joined_of_map_eq h.collating hk)
      simp [hno o ho] at hj
    · rw [(h.eq_of_joined ho ho' hn hn rfl hj (joined_of_map_eq h.collating hk)).2, hk]
  · obtain ⟨n', hn', o', ho', hj, hd, hk'⟩ := (exists_reported _ _).1
      ((hr.updated (a.key.map n.val)).2 ⟨o, ho, n, hn, hk, rfl, hne⟩)
    obtain ⟨rfl, rfl⟩ := h.eq_of_joined ho' ho hn' hn hk' hj (joined_of_map_eq h.collating hk)
    refine ⟨hd, (@columns_updatedDiff_iff E a.key ..).1 ?_⟩
    obtain ⟨o, ho, n, hn, hko, hkn, hlist⟩ := hr.columns _ (mem_append_left _ (mem_append_right _
      (mem_updated.2 ⟨n', hn', o', ho', hj, hd, rfl⟩))) rfl
    obtain ⟨rfl, rfl⟩ := h.eq_of_joined ho ho' hn hn' hkn
      (joined_of_map_eq h.collating (hko.trans hkn.symm)) hj
    exact hlist

theorem reports_of_tells (ht : Tells b a) : Reports b a (reported E b a) := by
  have hjoin : ∀ o ∈ b.rows, ∀ n ∈ a.rows,
      joined b.columns a.key o.val n.val = false ↔ a.key.map o.val ≠ a.key.map n.val := by
    intro o ho n hn
    rw [← Bool.not_eq_true, not_iff_not]
    exact ⟨(ht o ho n hn).1, joined_of_map_eq h.collating⟩
  have hdiff : ∀ o n : Row, differs b.columns (common b a) o n = true →
      ∃ c ∈ common b a, o c.name ≠ n c.name := by
    intro o n hd
    obtain ⟨c, hc, hne⟩ := any_eq_true.1 hd
    exact ⟨c, hc, fun heq => by simp [heq, h.collating.refl] at hne⟩
  refine ⟨fun k => ?_, fun k => ?_, fun k => ?_, fun d hd hkind => ?_, h.once⟩
  · rw [exists_reported]
    constructor
    · rintro ⟨n, hn, hno, rfl⟩
      exact ⟨⟨n, hn, rfl⟩, fun o ho => (hjoin o ho n hn).1 (hno o ho)⟩
    · rintro ⟨⟨n, hn, rfl⟩, hno⟩
      exact ⟨n, hn, fun o ho => (hjoin o ho n hn).2 (hno o ho), rfl⟩
  · rw [exists_reported]
    constructor
    · rintro ⟨o, ho, hno, rfl⟩
      exact ⟨⟨o, ho, rfl⟩, fun n hn => ((hjoin o ho n hn).1 (hno n hn)).symm⟩
    · rintro ⟨⟨o, ho, rfl⟩, hno⟩
      exact ⟨o, ho, fun n hn => (hjoin o ho n hn).2 (hno n hn).symm, rfl⟩
  · rw [exists_reported]
    constructor
    · rintro ⟨n, hn, o, ho, hj, hd, rfl⟩
      exact ⟨o, ho, n, hn, (ht o ho n hn).1 hj, rfl, hdiff _ _ hd⟩
    · rintro ⟨o, ho, n, hn, hk, rfl, hne⟩
      exact ⟨n, hn, o, ho, joined_of_map_eq h.collating hk, ((ht o ho n hn).2 hk hne).1, rfl⟩
  · simp only [reported, mem_append, mem_inserted, mem_updated, mem_deleted] at hd
    rcases hd with (⟨n, hn, hno, rfl⟩ | ⟨n, hn, o, ho, hj, hd, rfl⟩) | ⟨o, ho, hno, rfl⟩
    · cases hkind
    · have hkey := (ht o ho n hn).1 hj
      exact ⟨o, ho, n, hn, hkey, rfl,
        columns_updatedDiff_iff.2 ((ht o ho n hn).2 hkey (hdiff _ _ hd)).2⟩
    · cases hkind

end Identified

end SqlAnywhere.Compare

namespace SqlAnywhere.Merge3

open Compare

/-- What NOCASE compares of a value. -/
def folded : Value → Value ⊕ List Char
  | .text s => .inr (s.toList.map Char.toLower)
  | x => .inl x

/-- What `IS` compares of a real. -/
def zeroless : Value → Value
  | .real x => .real (if magnitude x = 0 then 0 else x)
  | x => x

/-- `t (k TEXT COLLATE NOCASE PRIMARY KEY, x REAL, v INTEGER)` -/
def kxv : List Column :=
  [⟨"k", "TEXT", 1, fun x y => folded x = folded y⟩,
    ⟨"x", "REAL", 0, fun x y => zeroless x == zeroless y⟩,
    ⟨"v", "INTEGER", 0, fun x y => x == y⟩]

def kxvRow (k : Value) (x : UInt64) (v : Int64) : RowOf kxv :=
  RowOf.ofFn kxv (fun c => if c = "k" then k else if c = "x" then .real x else .integer v)

def kxvTable (rows : List (RowOf kxv)) : Table := ⟨.table, kxv, [], fun _ => true, rows⟩

/-- What is reported of `t`. -/
def compared (before after : List (RowOf kxv)) : Except Error TableDiff :=
  table plainEngine (fun schema => onlyT (kxvTable (if schema = .base then before else after))) "t"
    .base .main

theorem collating_kxv : Collating kxv := by
  have hkernel : ∀ c, ∃ f : Value → Value ⊕ List Char, ∀ x y, same kxv c x y = true ↔ f x = f y := by
    intro c
    unfold same
    split
    · rename_i col hcol
      have hmem := List.mem_of_find?_eq_some hcol
      simp only [kxv, List.mem_cons, List.not_mem_nil, or_false] at hmem
      rcases hmem with rfl | rfl | rfl
      · exact ⟨folded, by simp⟩
      · exact ⟨fun x => .inl (zeroless x), by simp⟩
      · exact ⟨.inl, by simp⟩
    · exact ⟨.inl, by simp⟩
  refine ⟨fun c x => ?_, fun c x y => ?_, fun c x y z => ?_⟩ <;> obtain ⟨f, hf⟩ := hkernel c <;>
    simp only [hf]
  · exact Eq.symm
  · exact Eq.trans

end SqlAnywhere.Merge3
