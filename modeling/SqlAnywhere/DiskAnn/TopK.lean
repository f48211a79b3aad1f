import Mathlib.Order.Basic

/-!
# The sizes of a vector search

`vector_top_k` and `hybrid_top_k` are given a number `k` of rows and a number `search_l` of candidates
as SQL integers, and make room for them in numbers of C.

* `malloc`, `diskAnnSearch`, `vectorIndexSearch`, `hybridSearch` — what becomes of the numbers
* `exact_iff` — when a search fails or has room for just what it is asked for
-/

namespace SqlAnywhere.DiskAnn.TopK

/-- A 64-bit integer as an `int`, as `sqlite3_value_int` returns it. -/
def int32 (n : Int) : Int := n.bmod 4294967296

/-- `SQLITE_MAX_ALLOCATION_SIZE` -/
def maxAllocation : Int := 2147483391

/-- `VECTOR_SEARCH_L_MAX` -/
def searchLMax : Int := 1048576

/-- `SQLITE_MAX_LENGTH` -/
def maxLength : Int := 1000000000

/-- `sqlite3_malloc`, whose argument is an `int`: how many bytes there are, unless it fails. -/
def malloc (n : Int) : Option Int :=
  if 0 < int32 n ∧ int32 n ≤ maxAllocation then some (int32 n) else none

/-- What the sizes of a search depend on. -/
structure Index where
  isEmpty : Bool
  /-- the query is converted to the type of the edges -/
  compressed : Bool
  searchL : Int

/-- The arrays of a search: how many elements they are to have, and the bytes for their distances,
with as many for their nodes. -/
structure Ctx where
  maxCandidates : Int
  room : Int
  maxTopCandidates : Int
  topRoom : Int
  deriving DecidableEq

inductive Outcome
  | error
  /-- an array or the converted query is freed where the arrays are made, and again for the error -/
  | freedTwice
  /-- there is nothing to be searched -/
  | noRows
  | searches (ctx : Ctx)
  deriving DecidableEq

/-- `diskAnnSearchCtxInit`, and `diskAnnSearchCtxDeinit` after it has failed. -/
def searchCtxInit (index : Index) (maxCandidates topCandidates : Int) : Outcome :=
  match malloc (8 * maxCandidates), malloc (8 * topCandidates) with
  | some room, some topRoom => .searches ⟨maxCandidates, room, topCandidates, topRoom⟩
  | none, none => if index.compressed then .freedTwice else .error
  | _, _ => .freedTwice

/-- How many candidates a search has: those asked for, or else those of the index, but no fewer than
`k`. -/
def candidates (index : Index) (k searchL : Int) : Int :=
  let searchL := if searchL ≤ 0 then index.searchL else searchL
  if searchL < k then k else searchL

def diskAnnSearch (index : Index) (k searchL : Int) : Outcome :=
  if k < 0 then .error
  else if index.isEmpty then .noRows
  else searchCtxInit index (candidates index k searchL) k

/-- The rows that are returned of those that a search has found. -/
def Ctx.nOutRows (ctx : Ctx) (nTopCandidates : Int) : Int := min ctx.maxTopCandidates nTopCandidates

/-- `vectorIndexSearch`, with a vector and an index that are accepted. -/
def vectorIndexSearch (index : Index) (k : Int) (searchL : Option Int) : Outcome :=
  if searchL.any fun l => l < 1 || searchLMax < l then .error
  else if int32 k < 0 then .error
  else diskAnnSearch index (int32 k) (searchL.getD 0)

/-- `hybridIntArg`, and the vector ranking of `hybrid_top_k`. -/
def hybridSearch (index : Index) (k : Int) (searchL : Option Int) : Outcome :=
  if 0 ≤ k ∧ k ≤ maxLength then
    if int32 k = 0 then .noRows else vectorIndexSearch index (int32 k) searchL
  else .error

/-- A search fails, or runs with just the numbers that it is given: it has room for `k` results and for
`search_l` candidates, and returns at most `k` rows. -/
def Exact (k : Int) (searchL : Option Int) : Outcome → Prop
  | .error => True
  | .freedTwice => False
  | .noRows => int32 k = k
  | .searches ctx =>
    ctx.maxTopCandidates = k ∧ (∀ l ∈ searchL, ctx.maxCandidates = l) ∧
      8 * ctx.maxTopCandidates ≤ ctx.topRoom ∧ 8 * ctx.maxCandidates ≤ ctx.room ∧
      ∀ n, ctx.nOutRows n ≤ k

/-- There are to be as many candidates as results, or more, and room for them all. -/
def Roomy (index : Index) (k : Int) (searchL : Option Int) : Prop :=
  0 < k ∧ (∀ l ∈ searchL, k ≤ l) ∧ 8 * candidates index k (searchL.getD 0) ≤ maxAllocation

/-- A number is refused; or there is nothing to be searched, and `k` is an `int`; or there is room for
results and candidates; or for neither, and nothing else is to be freed. -/
def Fits (index : Index) (k : Int) (searchL : Option Int) : Prop :=
  (searchL.any fun l => l < 1 || searchLMax < l) = true ∨ int32 k < 0 ∨
    if index.isEmpty then int32 k = k
    else Roomy index k searchL ∨ index.compressed = false ∧ malloc (8 * int32 k) = none ∧
      malloc (8 * candidates index (int32 k) (searchL.getD 0)) = none

variable {index : Index} {k l n b : Int} {searchL : Option Int}

theorem le_candidates (index : Index) (k l : Int) : k ≤ candidates index k l := by
  simp only [candidates]
  split_ifs <;> omega

theorem candidates_eq_iff (h : 1 ≤ l) : candidates index k l = l ↔ k ≤ l := by
  simp only [candidates]
  split_ifs <;> omega

theorem int32_of_lt (h : 0 ≤ n) (hlt : n < 2147483648) : int32 n = n := by
  rw [int32, Int.bmod_def]
  split <;> omega

theorem malloc_of_le (h : 0 < n) (hle : n ≤ maxAllocation) : malloc n = some n := by
  have hint : int32 n = n :=
    int32_of_lt (Int.le_of_lt h) (Int.lt_of_le_of_lt hle (by decide))
  rw [malloc, hint, if_pos ⟨h, hle⟩]

theorem le_of_malloc (h : malloc n = some b) : b ≤ maxAllocation := by
  unfold malloc at h
  split_ifs at h with hn
  cases h
  exact hn.2

theorem searchCtxInit_exact (hk : 0 ≤ int32 k) (hl : ∀ l ∈ searchL, 1 ≤ l) :
    Exact k searchL
        (searchCtxInit index (candidates index (int32 k) (searchL.getD 0)) (int32 k)) ↔
      Roomy index k searchL ∨ index.compressed = false ∧ malloc (8 * int32 k) = none ∧
        malloc (8 * candidates index (int32 k) (searchL.getD 0)) = none := by
  by_cases hroomy : Roomy index k searchL
  · -- where there is room, `k` is an `int` and nothing wraps
    have ⟨hpos, hgiven, hle⟩ := hroomy
    have hmax := le_candidates index k (searchL.getD 0)
    have hint : int32 k = k := int32_of_lt (by omega) (by unfold maxAllocation at hle; omega)
    refine iff_of_true ?_ (.inl hroomy)
    rw [hint, searchCtxInit, malloc_of_le (by omega) hle, malloc_of_le (by omega) (by omega)]
    refine ⟨rfl, ?_, Int.le_refl _, Int.le_refl _, fun n => Int.min_le_left ..⟩
    rintro l rfl
    exact (candidates_eq_iff (hl l rfl)).2 (hgiven l rfl)
  · rw [or_iff_right hroomy, searchCtxInit]
    cases hroom : malloc (8 * candidates index (int32 k) (searchL.getD 0)) with
    | none => cases malloc (8 * int32 k) <;> cases index.compressed <;> simp [Exact]
    | some room =>
      cases htop : malloc (8 * int32 k) with
      | none => simp [Exact]
      | some topRoom =>
        refine iff_of_false ?_ (by simp)
        rintro ⟨hint, hgiven, -, hle, -⟩
        dsimp only at hint hgiven hle
        rw [hint] at hk hgiven hle htop
        have hzero : k ≠ 0 := by
          rintro rfl
          cases htop
        refine hroomy ⟨by omega, ?_, Int.le_trans hle (le_of_malloc hroom)⟩
        rintro l rfl
        exact (candidates_eq_iff (hl l rfl)).1 (hgiven l rfl)

/-- **When a search fails or runs with just the numbers that it is given.** -/
theorem exact_iff (index : Index) (k : Int) (searchL : Option Int) :
    (Exact k searchL (vectorIndexSearch index k searchL) ↔ Fits index k searchL) ∧
      (Exact k searchL (hybridSearch index k searchL) ↔
        k < 0 ∨ maxLength < k ∨ k = 0 ∨ Fits index k searchL) := by
  have hvector : Exact k searchL (vectorIndexSearch index k searchL) ↔ Fits index k searchL := by
    unfold vectorIndexSearch Fits
    by_cases hl : (searchL.any fun l => l < 1 || searchLMax < l) = true
    · rw [if_pos hl]
      exact iff_of_true trivial (.inl hl)
    rw [if_neg hl, or_iff_right hl]
    by_cases hneg : int32 k < 0
    · rw [if_pos hneg]
      exact iff_of_true trivial (.inl hneg)
    rw [if_neg hneg, or_iff_right hneg, diskAnnSearch, if_neg hneg]
    split_ifs with hempty
    · exact Iff.rfl
    refine searchCtxInit_exact (Int.not_lt.1 hneg) ?_
    rintro l rfl
    simp only [Option.any_some, Bool.or_eq_true, decide_eq_true_eq] at hl
    omega
  refine ⟨hvector, ?_⟩
  unfold hybridSearch
  by_cases hrange : 0 ≤ k ∧ k ≤ maxLength
  · have hint : int32 k = k := int32_of_lt hrange.1 (Int.lt_of_le_of_lt hrange.2 (by decide))
    rw [if_pos hrange, hint, or_iff_right (by omega), or_iff_right (by omega)]
    split_ifs with hzero
    · exact iff_of_true hint (.inl hzero)
    · rw [or_iff_right hzero]
      exact hvector
  · rw [if_neg hrange]
    exact iff_of_true trivial (by omega)

/-- An index with rows. -/
def indexed : Index := ⟨false, false, 200⟩

/-- **A search runs with another number**, has 8 bytes for more than 500 million results, and frees its
arrays twice for none. -/
theorem not_exact :
    vectorIndexSearch indexed 4294967301 none = .searches ⟨200, 1600, 5, 40⟩ ∧
      vectorIndexSearch indexed 536870913 none = .searches ⟨536870913, 8, 536870913, 8⟩ ∧
      vectorIndexSearch indexed 0 none = .freedTwice ∧
      ¬Exact 4294967301 none (vectorIndexSearch indexed 4294967301 none) :=
  ⟨by decide, by decide, by decide, fun h => absurd h.1 (by decide)⟩

end SqlAnywhere.DiskAnn.TopK
