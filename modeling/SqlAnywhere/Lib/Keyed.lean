import Mathlib.Data.List.Sort

/-!
# Lists read by key

A list whose elements carry keys is read key by key: `fiber f k l` is the sublist of the elements
of `l` whose key is `k`, and `get f k l` its first element.  When the keys do not repeat
(`Distinct f l`) the list is a finite map.

* what filtering, mapping, adding and sorting do to a fiber;
* `foldlM_local`: running steps that each touch one key, over a list of steps with distinct keys.
-/

namespace Keyed

open List

variable {α β κ : Type*} {f : α → κ} {l l' : List α} {a : α}

/-- The keys of `l` do not repeat. -/
def Distinct (f : α → κ) (l : List α) : Prop := (l.map f).Nodup

theorem Distinct.eq_of_key (hl : Distinct f l) {b : α} (ha : a ∈ l) (hb : b ∈ l)
    (h : f a = f b) : a = b :=
  inj_on_of_nodup_map hl ha hb h

theorem Distinct.perm (hl : Distinct f l) (h : l.Perm l') : Distinct f l' :=
  (h.map f).nodup hl

theorem Distinct.sublist (hl : Distinct f l) (h : l'.Sublist l) : Distinct f l' :=
  List.Nodup.sublist (h.map f) hl

theorem Distinct.of_cons (hl : Distinct f (a :: l)) : Distinct f l :=
  hl.sublist (sublist_cons_self a l)

theorem Distinct.ne_of_mem (hl : Distinct f (a :: l)) {b : α} (hb : b ∈ l) : f b ≠ f a := by
  intro h
  have hnot := (nodup_cons.1 (show (f a :: l.map f).Nodup from hl)).1
  exact hnot (h ▸ mem_map_of_mem hb)

section Fiber

variable [DecidableEq κ] {k : κ} {g : β → κ}

/-- The elements of `l` with key `k`. -/
def fiber (f : α → κ) (k : κ) (l : List α) : List α := l.filter (fun a => f a = k)

/-- The first element of `l` with key `k`. -/
def get (f : α → κ) (k : κ) (l : List α) : Option α := (fiber f k l).head?

@[simp] theorem fiber_nil : fiber f k [] = [] := rfl

@[simp] theorem fiber_append : fiber f k (l ++ l') = fiber f k l ++ fiber f k l' := by
  simp [fiber]

theorem fiber_cons : fiber f k (a :: l) = if f a = k then a :: fiber f k l else fiber f k l := by
  by_cases h : f a = k <;> simp [fiber, h]

@[simp] theorem mem_fiber : a ∈ fiber f k l ↔ a ∈ l ∧ f a = k := by simp [fiber]

theorem fiber_eq_nil : fiber f k l = [] ↔ ∀ a ∈ l, f a ≠ k := by simp [fiber]

theorem get_mem (h : get f k l = some a) : a ∈ l ∧ f a = k :=
  mem_fiber.1 (mem_of_mem_head? h)

theorem get_eq_none : get f k l = none ↔ ∀ a ∈ l, f a ≠ k := by
  rw [get, head?_eq_none_iff, fiber_eq_nil]

theorem Distinct.get_eq_some (hl : Distinct f l) : get f k l = some a ↔ a ∈ l ∧ f a = k := by
  refine ⟨get_mem, fun ⟨ha, hk⟩ => ?_⟩
  cases hg : get f k l with
  | none => exact absurd hk (get_eq_none.1 hg a ha)
  | some b =>
    obtain ⟨hb, hbk⟩ := get_mem hg
    rw [hl.eq_of_key hb ha (hbk.trans hk.symm)]

theorem Distinct.fiber_eq (hl : Distinct f l) (k : κ) : fiber f k l = (get f k l).toList := by
  induction l with
  | nil => rfl
  | cons c l ih =>
    by_cases hc : f c = k
    · have hnil : fiber f k l = [] := by
        rw [fiber_eq_nil]
        rintro b hb rfl
        exact hl.ne_of_mem hb hc.symm
      simp [get, fiber_cons, hc, hnil]
    · have := ih hl.of_cons
      simpa [get, fiber_cons, hc] using this

theorem distinct_of_fiber (h : ∀ k, (fiber f k l).length ≤ 1) : Distinct f l := by
  induction l with
  | nil => exact nodup_nil
  | cons c l ih =>
    rw [Distinct, map_cons, nodup_cons]
    refine ⟨fun hmem => ?_, ih fun k => le_trans ?_ (h k)⟩
    · obtain ⟨b, hb, hbc⟩ := mem_map.1 hmem
      have hlen := h (f c)
      rw [fiber_cons, if_pos rfl, length_cons] at hlen
      have hnil : fiber f (f c) l = [] := length_eq_zero_iff.1 (by omega)
      exact fiber_eq_nil.1 hnil b hb hbc
    · rw [fiber_cons]
      split_ifs
      · exact Nat.le_succ _
      · exact le_rfl

/-! ### What list operations do to a fiber -/

theorem fiber_filter (p : α → Bool) : fiber f k (l.filter p) = (fiber f k l).filter p := by
  simp only [fiber, filter_filter, Bool.and_comm]

theorem fiber_filter_of_true (p : α → Bool) (hp : ∀ a ∈ l, f a = k → p a = true) :
    fiber f k (l.filter p) = fiber f k l := by
  rw [fiber_filter, filter_eq_self]
  exact fun a ha => hp a (mem_fiber.1 ha).1 (mem_fiber.1 ha).2

theorem fiber_filter_of_false (p : α → Bool) (hp : ∀ a ∈ l, f a = k → p a = false) :
    fiber f k (l.filter p) = [] := by
  rw [fiber_filter, filter_eq_nil_iff]
  intro a ha
  simp [hp a (mem_fiber.1 ha).1 (mem_fiber.1 ha).2]

/-- A map to lists that keeps keys can be applied fiber by fiber. -/
theorem fiber_flatMap (h : α → List β) (hk : ∀ a ∈ l, ∀ b ∈ h a, g b = f a) :
    fiber g k (l.flatMap h) = (fiber f k l).flatMap h := by
  induction l with
  | nil => rfl
  | cons c l ih =>
    have hc := hk c mem_cons_self
    rw [flatMap_cons, fiber_append, ih fun a ha => hk a (mem_cons_of_mem _ ha), fiber_cons]
    split_ifs with hck
    · have hall : fiber g k (h c) = h c := by
        rw [fiber, filter_eq_self]
        intro b hb
        simp [hc b hb, hck]
      rw [hall, flatMap_cons]
    · have hnil : fiber g k (h c) = [] := by
        rw [fiber_eq_nil]
        intro b hb
        rwa [hc b hb]
      rw [hnil, nil_append]

theorem fiber_filterMap (h : α → Option β) (hk : ∀ a ∈ l, ∀ b, h a = some b → g b = f a) :
    fiber g k (l.filterMap h) = (fiber f k l).filterMap h := by
  rw [filterMap_eq_flatMap_toList, filterMap_eq_flatMap_toList, fiber_flatMap (f := f)]
  intro a ha b hb
  exact hk a ha b (by simpa using hb)

theorem Distinct.filterMap (hl : Distinct f l) (h : α → Option β)
    (hk : ∀ a ∈ l, ∀ b, h a = some b → g b = f a) : Distinct g (l.filterMap h) := by
  refine distinct_of_fiber fun k => ?_
  rw [fiber_filterMap (f := f) h hk, hl.fiber_eq]
  refine le_trans (length_filterMap_le _ _) ?_
  cases get f k l <;> simp

theorem fiber_map (h : α → β) (hk : ∀ a ∈ l, g (h a) = f a) :
    fiber g k (l.map h) = (fiber f k l).map h := by
  rw [← filterMap_eq_map, fiber_filterMap (f := f)]
  rintro a ha b ⟨⟩
  exact hk a ha

theorem fiber_insertionSort (le : α → α → Prop) [DecidableRel le]
    (hle : ∀ a b, f a = f b → le a b) : fiber f k (l.insertionSort le) = fiber f k l := by
  have hpair : (fiber f k l).Pairwise le := by
    refine pairwise_of_forall_mem_list fun a ha b hb => hle a b ?_
    rw [(mem_fiber.1 ha).2, (mem_fiber.1 hb).2]
  have hsub : (fiber f k l).Sublist (fiber f k (l.insertionSort le)) := by
    have h := (sublist_insertionSort hpair filter_sublist).filter (fun a => f a = k)
    simpa [fiber] using h
  refine (hsub.eq_of_length_le (le_of_eq ?_)).symm
  exact ((perm_insertionSort le l).filter _).length_eq

/-- Key by key a list is read in another order. -/
theorem flatMap_fiber_perm {ks : List κ} (hks : ks.Nodup) (l : List α) :
    (ks.flatMap fun k => fiber f k l).Perm (l.filter fun a => f a ∈ ks) := by
  induction ks with
  | nil => simp
  | cons k ks ih =>
    obtain ⟨hk, hks⟩ := nodup_cons.1 hks
    have hfirst : (l.filter fun a => f a ∈ k :: ks).filter (fun a => f a = k) = fiber f k l := by
      rw [fiber, filter_filter]
      refine filter_congr fun a _ => ?_
      by_cases h : f a = k <;> simp [h]
    have hrest : (l.filter fun a => f a ∈ k :: ks).filter (fun a => !decide (f a = k)) =
        l.filter fun a => f a ∈ ks := by
      rw [filter_filter]
      refine filter_congr fun a _ => ?_
      by_cases h : f a = k <;> simp [h, hk]
    have hsplit := filter_append_perm (fun a => decide (f a = k))
      (l.filter fun a => f a ∈ k :: ks)
    rw [hfirst, hrest] at hsplit
    exact ((ih hks).append_left (fiber f k l)).trans hsplit

end Fiber

/-! ### Steps that each touch one key -/

section Fold

variable {σ δ ε : Type*} {step : σ → δ → Except ε σ} {ds : List δ} {s s' : σ}

theorem foldlM_nil_ok (h : ([] : List δ).foldlM step s = .ok s') : s' = s := by
  cases h; rfl

theorem foldlM_cons_ok {d : δ} (h : (d :: ds).foldlM step s = .ok s') :
    ∃ s₁, step s d = .ok s₁ ∧ ds.foldlM step s₁ = .ok s' := by
  rw [foldlM_cons] at h
  cases hs : step s d with
  | error e => rw [hs] at h; cases h
  | ok s₁ => rw [hs] at h; exact ⟨s₁, rfl, h⟩

theorem foldlM_const {s : σ} (h : ∀ d ∈ ds, step s d = .ok s) :
    ds.foldlM step s = .ok s := by
  induction ds with
  | nil => rfl
  | cons d ds ih =>
    rw [foldlM_cons, h d mem_cons_self]
    exact ih fun e he => h e (mem_cons_of_mem _ he)

theorem foldlM_invariant (P : σ → Prop) (hstep : ∀ s d s₁, d ∈ ds → P s → step s d = .ok s₁ → P s₁)
    (h : ds.foldlM step s = .ok s') (hs : P s) : P s' := by
  induction ds generalizing s with
  | nil => exact foldlM_nil_ok h ▸ hs
  | cons d ds ih =>
    obtain ⟨s₁, h₁, h₂⟩ := foldlM_cons_ok h
    exact ih (fun s d s₁ hd => hstep s d s₁ (mem_cons_of_mem _ hd)) h₂
      (hstep s d s₁ mem_cons_self hs h₁)

/-- Steps with distinct keys, each changing the view at its own key only, and there from `old` to
something in the relation `New` with the step, leave the view in that relation at the keys of the
list and as it was everywhere else. -/
theorem foldlM_local (key : δ → κ) (view : σ → κ → β) (P : σ → Prop) (old : κ → β)
    (New : δ → β → Prop) (hd : Distinct key ds)
    (hstep : ∀ s d s₁, d ∈ ds → P s → view s (key d) = old (key d) → step s d = .ok s₁ →
      P s₁ ∧ New d (view s₁ (key d)) ∧ ∀ k, k ≠ key d → view s₁ k = view s k)
    (hs : P s) (hold : ∀ d ∈ ds, view s (key d) = old (key d)) (h : ds.foldlM step s = .ok s') :
    P s' ∧ (∀ d ∈ ds, New d (view s' (key d))) ∧
      ∀ k, (∀ d ∈ ds, key d ≠ k) → view s' k = view s k := by
  induction ds generalizing s with
  | nil =>
    obtain rfl := foldlM_nil_ok h
    exact ⟨hs, by simp, fun k _ => rfl⟩
  | cons d ds ih =>
    obtain ⟨s₁, h₁, h₂⟩ := foldlM_cons_ok h
    obtain ⟨hs₁, hnew, hsame⟩ :=
      hstep s d s₁ mem_cons_self hs (hold d mem_cons_self) h₁
    obtain ⟨hs', hin, hout⟩ := ih hd.of_cons
      (fun s e s₁ he => hstep s e s₁ (mem_cons_of_mem _ he)) hs₁
      (fun e he => by
        rw [hsame _ (hd.ne_of_mem he)]
        exact hold e (mem_cons_of_mem _ he)) h₂
    refine ⟨hs', fun e he => ?_, fun k hk => ?_⟩
    · rcases mem_cons.1 he with rfl | he
      · rwa [hout _ fun e' he' => hd.ne_of_mem he']
      · exact hin e he
    · rw [hout k fun e he => hk e (mem_cons_of_mem _ he)]
      exact hsame k (Ne.symm (hk d mem_cons_self))

/-- A `mapM` whose steps succeed under a condition, and then with a value known beforehand. -/
theorem mapM_ok_iff {f : α → Except ε β} {g : α → β} {p : α → Prop} {l : List α} {rs : List β}
    (hf : ∀ a ∈ l, ∀ b, f a = .ok b ↔ p a ∧ b = g a) :
    l.mapM f = .ok rs ↔ (∀ a ∈ l, p a) ∧ rs = l.map g := by
  induction l generalizing rs with
  | nil =>
    rw [mapM_nil]
    change Except.ok [] = Except.ok rs ↔ _
    simp [eq_comm]
  | cons a l ih =>
    have ha := hf a mem_cons_self
    have ih : ∀ {rs}, l.mapM f = .ok rs ↔ (∀ a ∈ l, p a) ∧ rs = l.map g :=
      ih fun a ha => hf a (mem_cons_of_mem _ ha)
    rw [mapM_cons, forall_mem_cons]
    constructor
    · intro h
      cases hfa : f a with
      | error e => rw [hfa] at h; cases h
      | ok b =>
        cases hl : l.mapM f with
        | error e => rw [hfa, hl] at h; cases h
        | ok bs =>
          rw [hfa, hl] at h
          cases h
          obtain ⟨hp, rfl⟩ := (ha b).1 hfa
          obtain ⟨hps, rfl⟩ := ih.1 hl
          exact ⟨⟨hp, hps⟩, rfl⟩
    · rintro ⟨⟨hp, hps⟩, rfl⟩
      rw [(ha (g a)).2 ⟨hp, rfl⟩, ih.2 ⟨hps, rfl⟩]
      rfl

end Fold

end Keyed
