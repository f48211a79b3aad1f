import Mathlib.Data.Int.Notation
import Mathlib.Data.List.Nodup

/-!
# The node blocks of a DiskANN index

A vector index keeps one block for each of its rows: the row's vector and, for each neighbour the
graph leads to, the neighbour's rowid, a copy of its vector (possibly compressed) and the distance
to it.  The vectors, their compressed form and the float arithmetic are those of a `Vectors`; the
functions on blocks are those of `vectordiskann.c`.

* `replaceEdgeIdx`, `pruneEdges`, `addEdge` — how a neighbour gets into a block
* `replaceEdgeIdx_cases` — where it goes: over its own left-over edge, over a worse one, at the end
* `mem_addEdge` — what the edges of the block are then
-/

namespace SqlAnywhere.DiskAnn

open List

/-- What the walk over an index asks of vectors: `N` are the vectors of the rows, `E` the vectors
kept with the edges, `D` the floats. -/
structure Vectors (N E D : Type) where
  dims : N → ℕ
  type : N → ℕ
  /-- `vectorConvert`, from the type of the rows to that of the edges. -/
  convert : N → E
  /-- The two types differ. -/
  compressed : Bool
  distance : N → N → D
  edgeDistance : E → E → D
  lt : D → D → Bool
  eq : D → D → Bool
  /-- `nodeToNew > pruningAlpha * edgeToNew`. -/
  prunes : D → D → Bool

/-- What the parameters of an index say. -/
structure Index (N E D : Type) extends Vectors N E D where
  formatV1 : Bool
  vectorDims : ℕ
  nodeVectorType : ℕ
  /-- `nodeEdgesMaxCount`. -/
  maxEdges : ℕ
  insertL : ℕ
  searchL : ℕ

/-- An index of points on the line, with the parameters an index has by default and room for two
neighbours. -/
def line : Index ℤ ℤ ℕ where
  dims _ := 1
  type _ := 1
  convert v := v
  compressed := false
  distance a b := (a - b).natAbs
  edgeDistance a b := (a - b).natAbs
  lt a b := decide (a < b)
  eq a b := decide (a = b)
  prunes far near := decide (12 * near < 10 * far)
  formatV1 := false
  vectorDims := 1
  nodeVectorType := 1
  maxEdges := 2
  insertL := 70
  searchL := 200

/-- An edge as it stands in a block. -/
structure Edge (E D : Type) where
  rowid : ℕ
  distance : D
  vector : E
  deriving DecidableEq

/-- The block of a row. -/
structure Block (N E D : Type) where
  vector : N
  edges : List (Edge E D)
  deriving DecidableEq

variable {N E D : Type} {idx : Index N E D}

/-! ### Edges -/

/-- `nodeBinReplaceEdge`: the edge at `i`, or a new one at the end. -/
def replaceEdge (edges : List (Edge E D)) (i : ℕ) (e : Edge E D) : List (Edge E D) :=
  if i < edges.length then edges.set i e else edges ++ [e]

/-- `nodeBinDeleteEdge`: the last edge takes the place of the deleted one. -/
def deleteEdge (edges : List (Edge E D)) (i : ℕ) : List (Edge E D) :=
  match edges.getLast? with
  | some last => (edges.set i last).dropLast
  | none => edges

/-- `nodeBinEdgeFindIdx`. -/
def edgeFindIdx (edges : List (Edge E D)) (rowid : ℕ) : Option ℕ :=
  edges.findIdx? fun e => e.rowid = rowid

/-- The distance that comes with an edge: the first format does not store it. -/
def nodeToEdge (idx : Index N E D) (node : E) (e : Edge E D) : D :=
  if idx.formatV1 then idx.edgeDistance node e.vector else e.distance

/-- `best` after the edge at `i`. -/
def worse (idx : Index N E D) (nodeToNew nodeToEdge : D) (i : ℕ) (best : Option (ℕ × D)) :
    Option (ℕ × D) :=
  if idx.lt nodeToNew nodeToEdge && (best.all fun b => idx.lt b.2 nodeToEdge)
  then some (i, nodeToEdge) else best

/-- The loop of `diskAnnReplaceEdgeIdx` over the edges from the last one to the first, `best` being
the worst edge seen that is worse than the new one. -/
def replaceEdgeScan (idx : Index N E D) (node new : E) (rowid : ℕ) (nodeToNew : D)
    (room : Option ℕ) : List (Edge E D × ℕ) → Option (ℕ × D) → Option ℕ
  | [], best => room <|> best.map Prod.fst
  | (e, i) :: es, best =>
    if e.rowid = rowid then some i
    else if idx.prunes nodeToNew (idx.edgeDistance e.vector new) then none
    else replaceEdgeScan idx node new rowid nodeToNew room es
      (worse idx nodeToNew (nodeToEdge idx node e) i best)

/-- `diskAnnReplaceEdgeIdx`: where the new edge goes, `none` when it is not wanted. -/
def replaceEdgeIdx (idx : Index N E D) (b : Block N E D) (rowid : ℕ) (new : E) : Option ℕ :=
  replaceEdgeScan idx (idx.convert b.vector) new rowid
    (idx.edgeDistance (idx.convert b.vector) new)
    (if b.edges.length < idx.maxEdges then some b.edges.length else none)
    b.edges.zipIdx.reverse none

/-- The loop of `diskAnnPruneEdges` from the edge at `i` on. -/
def pruneFrom (idx : Index N E D) (node : E) (hint : Edge E D) :
    ℕ → ℕ → List (Edge E D) → List (Edge E D)
  | 0, _, edges => edges
  | fuel + 1, i, edges =>
    match edges[i]? with
    | none => edges
    | some e =>
      if hint.rowid = e.rowid then pruneFrom idx node hint fuel (i + 1) edges
      else if idx.prunes (nodeToEdge idx node e) (idx.edgeDistance hint.vector e.vector)
      then pruneFrom idx node hint fuel i (deleteEdge edges i)
      else pruneFrom idx node hint fuel (i + 1) edges

/-- `diskAnnPruneEdges`: drop the edges the one at `inserted` makes superfluous.  Each round of the
loop moves on or drops an edge, so there are as many as there are edges. -/
def pruneEdges (idx : Index N E D) (b : Block N E D) (inserted : ℕ) : Block N E D :=
  match b.edges[inserted]? with
  | none => b
  | some hint =>
    { b with edges := pruneFrom idx (idx.convert b.vector) hint b.edges.length 0 b.edges }

/-- The edge from `b` to a row with vector `v`. -/
def edgeTo (idx : Index N E D) (b : Block N E D) (rowid : ℕ) (v : N) : Edge E D where
  rowid := rowid
  distance := idx.edgeDistance (idx.convert b.vector) (idx.convert v)
  vector := idx.convert v

/-- One round of either pass of `diskAnnInsert`: make the row a neighbour, unless it is not
wanted. -/
def addEdge (idx : Index N E D) (b : Block N E D) (rowid : ℕ) (v : N) : Option (Block N E D) :=
  (replaceEdgeIdx idx b rowid (idx.convert v)).map fun i =>
    pruneEdges idx { b with edges := replaceEdge b.edges i (edgeTo idx b rowid v) } i

/-! ### What deleting and pruning leave -/

/-- No two edges of the list lead to the same row. -/
def DistinctEdges (edges : List (Edge E D)) : Prop := (edges.map Edge.rowid).Nodup

/-- `es'` has edges of `es` only, and no row twice unless `es` has. -/
structure Within (es' es : List (Edge E D)) : Prop where
  mem : ∀ e ∈ es', e ∈ es
  distinct : DistinctEdges es → DistinctEdges es'

theorem Within.refl (es : List (Edge E D)) : Within es es := ⟨fun _ h => h, fun h => h⟩

theorem Within.trans {a b c : List (Edge E D)} (hab : Within a b) (hbc : Within b c) :
    Within a c :=
  ⟨fun e he => hbc.mem e (hab.mem e he), fun h => hab.distinct (hbc.distinct h)⟩

/-- Deleting an edge puts the last one in its place, or just drops the last one. -/
theorem deleteEdge_concat (es : List (Edge E D)) (last : Edge E D) (i : ℕ) :
    deleteEdge (es ++ [last]) i = es.set i last := by
  simp only [deleteEdge, getLast?_append, getLast?_singleton, Option.some_or]
  rcases Nat.lt_or_ge i es.length with hi | hi
  · rw [set_append_left _ _ hi, dropLast_concat]
  rw [set_append_right _ _ hi, set_eq_of_length_le hi]
  rcases Nat.eq_zero_or_pos (i - es.length) with h0 | h0
  · rw [h0, set_cons_zero, dropLast_concat]
  · have hset : [last].set (i - es.length) last = [last] := set_eq_of_length_le h0
    rw [hset, dropLast_concat]

theorem deleteEdge_within (es : List (Edge E D)) (i : ℕ) : Within (deleteEdge es i) es := by
  rcases eq_nil_or_concat es with rfl | ⟨es, last, rfl⟩
  · exact Within.refl []
  rw [concat_eq_append, deleteEdge_concat]
  refine ⟨fun e he => ?_, fun h => ?_⟩
  · rcases mem_or_eq_of_mem_set he with he | rfl
    · exact mem_append_left _ he
    · exact mem_append_right _ (mem_singleton_self _)
  · rw [DistinctEdges, map_append, nodup_append] at h
    rw [DistinctEdges, map_set]
    refine h.1.set fun hmem => h.2.2 _ hmem last.rowid (by simp) rfl

theorem pruneFrom_within (node : E) (hint : Edge E D) (fuel i : ℕ)
    (es : List (Edge E D)) : Within (pruneFrom idx node hint fuel i es) es := by
  induction fuel generalizing i es with
  | zero => exact Within.refl es
  | succ fuel ih =>
    unfold pruneFrom
    split
    · exact Within.refl es
    split
    · exact ih _ _
    · split
      · exact (ih _ _).trans (deleteEdge_within es i)
      · exact ih _ _

theorem pruneEdges_within (idx : Index N E D) (b : Block N E D) (i : ℕ) :
    Within (pruneEdges idx b i).edges b.edges := by
  unfold pruneEdges
  split
  · exact Within.refl _
  · exact pruneFrom_within _ _ _ _ _

theorem pruneEdges_vector (b : Block N E D) (i : ℕ) :
    (pruneEdges idx b i).vector = b.vector := by
  unfold pruneEdges
  split <;> rfl

/-! ### Where a new edge goes -/

theorem replaceEdgeScan_cases {node new : E} {rowid i : ℕ} {nodeToNew : D}
    {room : Option ℕ} {es : List (Edge E D × ℕ)} {best : Option (ℕ × D)}
    (h : replaceEdgeScan idx node new rowid nodeToNew room es best = some i) :
    (∃ e, (e, i) ∈ es ∧ e.rowid = rowid) ∨ ∀ p ∈ es, p.1.rowid ≠ rowid := by
  induction es generalizing best with
  | nil => exact Or.inr fun p hp => absurd hp not_mem_nil
  | cons p es ih =>
    obtain ⟨e, j⟩ := p
    rw [replaceEdgeScan] at h
    split_ifs at h with he hp
    · cases h
      exact Or.inl ⟨e, mem_cons_self, he⟩
    · rcases ih h with ⟨e', he', hr⟩ | hno
      · exact Or.inl ⟨e', mem_cons_of_mem _ he', hr⟩
      · exact Or.inr (forall_mem_cons.2 ⟨he, hno⟩)

/-- **A new edge goes over a left-over edge to the same row, or there is none.** -/
theorem replaceEdgeIdx_cases {b : Block N E D} {rowid i : ℕ} {new : E}
    (h : replaceEdgeIdx idx b rowid new = some i) :
    (∃ e, b.edges[i]? = some e ∧ e.rowid = rowid) ∨ ∀ e ∈ b.edges, e.rowid ≠ rowid := by
  rcases replaceEdgeScan_cases h with ⟨e, he, hr⟩ | hno
  · exact Or.inl ⟨e, mem_zipIdx_iff_getElem?.1 (mem_reverse.1 he), hr⟩
  · refine Or.inr fun e he => ?_
    obtain ⟨j, hj⟩ := mem_iff_getElem?.1 he
    exact hno (e, j) (mem_reverse.2 (mem_zipIdx_iff_getElem?.2 hj))

theorem mem_replaceEdge {es : List (Edge E D)} {i : ℕ} {new : Edge E D} (hes : DistinctEdges es)
    (hi : (∃ e, es[i]? = some e ∧ e.rowid = new.rowid) ∨ ∀ e ∈ es, e.rowid ≠ new.rowid) :
    (∀ e ∈ replaceEdge es i new, e = new ∨ e ∈ es ∧ e.rowid ≠ new.rowid) ∧
      DistinctEdges (replaceEdge es i new) := by
  unfold replaceEdge
  rcases hi with ⟨e, he, hr⟩ | hno
  · -- the edge replaced leads to the same row, so the rowids stay as they are
    obtain ⟨hlt, rfl⟩ := List.getElem?_eq_some_iff.1 he
    rw [if_pos hlt]
    have hids : (es.set i new).map Edge.rowid = es.map Edge.rowid := by
      rw [map_set, ← hr, ← map_set, set_getElem_self]
    refine ⟨fun e' he' => ?_, by rw [DistinctEdges, hids]; exact hes⟩
    obtain ⟨j, hj⟩ := mem_iff_getElem?.1 he'
    by_cases hij : i = j
    · subst hij
      rw [getElem?_set_self hlt] at hj
      exact Or.inl (Option.some.inj hj).symm
    · rw [getElem?_set_ne hij] at hj
      refine Or.inr ⟨mem_of_getElem? hj, fun h => hij ?_⟩
      refine (getElem?_inj (by rwa [length_map]) hes).1 ?_
      rw [getElem?_map, getElem?_map, he, hj, Option.map_some, Option.map_some, hr, h]
  · split
    · refine ⟨fun e he => ?_, ?_⟩
      · rcases mem_or_eq_of_mem_set he with he | rfl
        · exact Or.inr ⟨he, hno e he⟩
        · exact Or.inl rfl
      · rw [DistinctEdges, map_set]
        refine List.Nodup.set hes fun hmem => ?_
        obtain ⟨e, he, hr⟩ := mem_map.1 hmem
        exact hno e he hr
    · refine ⟨fun e he => ?_, ?_⟩
      · rcases mem_append.1 he with he | he
        · exact Or.inr ⟨he, hno e he⟩
        · exact Or.inl (mem_singleton.1 he)
      · rw [DistinctEdges, map_append, nodup_append]
        refine ⟨hes, nodup_singleton _, fun a ha c hc hac => ?_⟩
        obtain ⟨e, he, rfl⟩ := mem_map.1 ha
        exact hno e he (hac.trans (mem_singleton.1 hc))

/-- **What a block has after a row was made its neighbour**: the edge to that row as it is now, and
edges to other rows it had before. -/
theorem mem_addEdge {b b' : Block N E D} {rowid : ℕ} {v : N}
    (hb : DistinctEdges b.edges) (h : addEdge idx b rowid v = some b') :
    b'.vector = b.vector ∧ DistinctEdges b'.edges ∧
      ∀ e ∈ b'.edges, e = edgeTo idx b rowid v ∨ e ∈ b.edges ∧ e.rowid ≠ rowid := by
  obtain ⟨i, hi, rfl⟩ := Option.map_eq_some_iff.1 h
  have hi' : (∃ e, b.edges[i]? = some e ∧ e.rowid = (edgeTo idx b rowid v).rowid) ∨
      ∀ e ∈ b.edges, e.rowid ≠ (edgeTo idx b rowid v).rowid := replaceEdgeIdx_cases hi
  obtain ⟨hmem, hdistinct⟩ := mem_replaceEdge hb hi'
  have hw := pruneEdges_within idx
    { b with edges := replaceEdge b.edges i (edgeTo idx b rowid v) } i
  exact ⟨pruneEdges_vector _ i, hw.distinct hdistinct, fun e he => hmem e (hw.mem e he)⟩

end SqlAnywhere.DiskAnn
