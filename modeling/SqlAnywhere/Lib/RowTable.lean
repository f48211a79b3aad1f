import Mathlib.Data.List.Nodup

/-!
# Tables of rows

A table holds a value for each of finitely many rowids.  The rowids are a list without repetition,
so that a row can be picked by its position and rows can be counted, and the values a partial
function.

* `put`, `erase` — writing and removing a row, with `get_put`, `get_erase`
-/

/-- A table with rowids of type `κ` and values of type `α`. -/
structure RowTable (κ α : Type*) where
  rowids : List κ
  get : κ → Option α
  nodup : rowids.Nodup
  mem_iff : ∀ r, r ∈ rowids ↔ (get r).isSome

namespace RowTable

variable {κ α : Type*}

/-- The table without rows. -/
def empty : RowTable κ α := ⟨[], fun _ => none, List.nodup_nil, fun _ => by simp⟩

theorem get_of_rowids_nil {t : RowTable κ α} (h : t.rowids = []) (r : κ) : t.get r = none := by
  have hr := t.mem_iff r
  rw [h] at hr
  simpa using hr

variable [DecidableEq κ]

/-- Write a row, a new one or one that is there. -/
def put (t : RowTable κ α) (r : κ) (a : α) : RowTable κ α where
  rowids := if r ∈ t.rowids then t.rowids else r :: t.rowids
  get := Function.update t.get r (some a)
  nodup := by
    split_ifs with h
    · exact t.nodup
    · exact List.nodup_cons.2 ⟨h, t.nodup⟩
  mem_iff p := by
    by_cases hp : p = r
    · subst hp
      rw [Function.update_self]
      split_ifs with h <;> simp [h]
    · rw [Function.update_of_ne hp]
      split_ifs with h
      · exact t.mem_iff p
      · rw [List.mem_cons, or_iff_right hp]
        exact t.mem_iff p

/-- Remove a row. -/
def erase (t : RowTable κ α) (r : κ) : RowTable κ α where
  rowids := t.rowids.erase r
  get := Function.update t.get r none
  nodup := t.nodup.erase r
  mem_iff p := by
    rw [t.nodup.mem_erase_iff]
    by_cases hp : p = r
    · subst hp
      simp
    · rw [Function.update_of_ne hp, and_iff_right hp]
      exact t.mem_iff p

variable (t : RowTable κ α)
include t

theorem get_put (r p : κ) (a : α) :
    (t.put r a).get p = if p = r then some a else t.get p :=
  Function.update_apply ..

theorem get_erase (r p : κ) :
    (t.erase r).get p = if p = r then none else t.get p :=
  Function.update_apply ..

theorem count_rowids (r : κ) :
    t.rowids.count r = if (t.get r).isSome then 1 else 0 := by
  simp only [List.Nodup.count t.nodup, t.mem_iff]

omit t

theorem get_foldl_erase (rs : List κ) (t : RowTable κ α) (p : κ) :
    (rs.foldl erase t).get p = if p ∈ rs then none else t.get p := by
  induction rs generalizing t with
  | nil => rw [if_neg List.not_mem_nil]; rfl
  | cons r rs ih =>
    rw [List.foldl_cons, ih, get_erase]
    by_cases hmem : p ∈ rs
    · rw [if_pos hmem, if_pos (List.mem_cons_of_mem _ hmem)]
    rw [if_neg hmem]
    by_cases hfirst : p = r
    · rw [if_pos hfirst, if_pos (hfirst ▸ List.mem_cons_self ..)]
    · rw [if_neg hfirst, if_neg]
      exact fun hcons => (List.mem_cons.1 hcons).elim hfirst hmem

end RowTable
