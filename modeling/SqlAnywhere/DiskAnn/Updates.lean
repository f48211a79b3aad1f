import SqlAnywhere.DiskAnn.Faults
import SqlAnywhere.Lib.Run

/-!
# Edges of a DiskANN index and the rows they lead to

An edge carries a copy of the vector of the row it leads to.  A row that is deleted leaves the edges
of other rows to it as they are, and when its key is inserted again with another vector they may be
in the way.

* `Current` — every edge to a row of the index has the row's vector and the distance to it
* `insert_current_iff` — when an insertion keeps this
* `current_of_careful` — runs of insertions, deletions and updates
-/

namespace SqlAnywhere.DiskAnn

open List Option Calls

variable {N E D B : Type}

/-- Every edge of a block that leads to a row of the index has the vector that the row has now, and
the distance to it. -/
def Current (idx : Index N E D) (rows : Shadow (Block N E D)) : Prop :=
  ∀ p b, rows.get p = some b → ∀ e ∈ b.edges, ∀ b', rows.get e.rowid = some b' →
    e = edgeTo idx b e.rowid b'.vector

/-- No block has two edges to the same row. -/
def Distinct (rows : Shadow (Block N E D)) : Prop :=
  ∀ p b, rows.get p = some b → DistinctEdges b.edges

variable {idx : Index N E D} {rows rows' : Shadow (Block N E D)}
  {visited : List (Node (Block N E D))} {b b' : Block N E D}

theorem edgeTo_congr (h : b'.vector = b.vector) (rowid : ℕ) (v : N) :
    edgeTo idx b' rowid v = edgeTo idx b rowid v := by
  rw [edgeTo, edgeTo, h]

/-! ### Deletion -/

/-- Every block of `rows'` was in `rows`, with the edges it has now and perhaps more. -/
def Shrunk (rows rows' : Shadow (Block N E D)) : Prop :=
  ∀ p b', rows'.get p = some b' →
    ∃ b, rows.get p = some b ∧ b'.vector = b.vector ∧ Within b'.edges b.edges

theorem Shrunk.refl (rows : Shadow (Block N E D)) : Shrunk rows rows :=
  fun _ b' h => ⟨b', h, rfl, Within.refl _⟩

theorem Shrunk.trans {rows'' : Shadow (Block N E D)} (h : Shrunk rows rows')
    (h' : Shrunk rows' rows'') : Shrunk rows rows'' := by
  intro p b'' hb''
  obtain ⟨b', hb', hv', hw'⟩ := h' p b'' hb''
  obtain ⟨b, hb, hv, hw⟩ := h p b' hb'
  exact ⟨b, hb, hv'.trans hv, hw'.trans hw⟩

theorem Shrunk.current (h : Shrunk rows rows') (hc : Current idx rows) : Current idx rows' := by
  intro p b' hb' e he b₁' hb₁'
  obtain ⟨b, hb, hv, hw⟩ := h p b' hb'
  obtain ⟨b₁, hb₁, hv₁, -⟩ := h e.rowid b₁' hb₁'
  rw [edgeTo_congr hv, hv₁]
  exact hc p b hb e (hw.mem e he) b₁ hb₁

theorem Shrunk.distinct (h : Shrunk rows rows') (hd : Distinct rows) : Distinct rows' := by
  intro p b' hb'
  obtain ⟨b, hb, -, hw⟩ := h p b' hb'
  exact hw.distinct (hd p b hb)

theorem shrunk_put {r : ℕ} (hb : rows.get r = some b)
    (hv : b'.vector = b.vector) (hw : Within b'.edges b.edges) : Shrunk rows (rows.put r b') := by
  intro p b₁ hb₁
  rw [RowTable.get_put] at hb₁
  split_ifs at hb₁ with hp
  · cases hb₁
    exact ⟨b, hp ▸ hb, hv, hw⟩
  · exact ⟨b₁, hb₁, rfl, Within.refl _⟩

theorem shrunk_erase (r : ℕ) : Shrunk rows (rows.erase r) := by
  intro p b hb
  rw [RowTable.get_erase] at hb
  split_ifs at hb with hp
  exact ⟨b, hb, rfl, Within.refl _⟩

theorem unlink_shrunk (edges : List (Edge E D)) {spot : BlobSpot (Block N E D)}
    (hspot : spot.Good rows) : (unlink edges spot rows).Ends fun r => Shrunk rows r.2 := by
  induction edges generalizing spot rows with
  | nil => exact Ends.pure (Shrunk.refl rows)
  | cons e es ih =>
    refine (blobSpotReload_ends hspot e.rowid).bind fun r hr => ?_
    cases hb : r.2 with
    | error fault =>
      cases fault with
      | rowNotFound => exact ih hr.good
      | failed c => exact Ends.pure (Shrunk.refl rows)
    | ok b =>
      dsimp only
      split
      · exact ih hr.good
      rename_i i hi
      refine Ends.ask fun answer => ?_
      cases answer with
      | some c => exact Ends.pure (Shrunk.refl rows)
      | none =>
        have hput : Shrunk rows (rows.put e.rowid { b with edges := deleteEdge b.edges i }) :=
          shrunk_put (hr.block b hb).1 rfl (deleteEdge_within b.edges i)
        refine (ih ?_).mono fun r' hr' => hput.trans hr'
        refine ⟨fun b' hb' => ?_, fun _ => ?_⟩
        · rw [RowTable.get_put, if_pos (hr.moved b hb)]
          exact hb'
        · rw [RowTable.get_put, if_pos (hr.moved b hb)]
          rfl

/-- **A deletion only takes away**: edges of neighbours, and the row. -/
theorem deleteNode_shrunk (rows : Shadow (Block N E D)) (r : ℕ) :
    (deleteNode rows r).Ends fun o => Shrunk rows o.rows := by
  refine (blobSpotCreate_ends rows r).bind fun created hcreated => ?_
  cases created with
  | error fault => cases fault <;> exact Ends.pure (Shrunk.refl rows)
  | ok nodeBlob =>
    refine (blobSpotReload_ends (hcreated.1 nodeBlob rfl) r).bind fun node _ => ?_
    cases node.2 with
    | error e => exact Ends.pure (Shrunk.refl rows)
    | ok b =>
      refine (blobSpotCreate_ends rows r).bind fun created hcreated => ?_
      cases created with
      | error e => exact Ends.pure (Shrunk.refl rows)
      | ok edgeBlob =>
        refine (unlink_shrunk b.edges (hcreated.1 edgeBlob rfl)).bind fun unlinked hun => ?_
        cases unlinked.1 with
        | some e => exact Ends.pure (Shrunk.refl rows)
        | none =>
          refine Ends.ask fun answer => ?_
          cases answer with
          | some c => exact Ends.pure (Shrunk.refl rows)
          | none => exact Ends.pure (hun.trans (shrunk_erase r))

/-! ### Insertion -/

/-- The nodes that the walk of an insertion has visited. -/
structure Loads (rows : Shadow B) (visited : List (Node B)) : Prop where
  once : (visited.map Node.rowid).Nodup
  there : ∀ v ∈ visited, v.rowid ∈ rows.rowids
  block : ∀ v ∈ visited, v.block = rows.get v.rowid

/-- What the second pass makes of a block. -/
def linked (idx : Index N E D) (r : ℕ) (v : N) (b : Block N E D) : Block N E D :=
  (addEdge idx b r v).getD b

theorem Loads.tail {rows₁ : Shadow B} {u : Node B} {us : List (Node B)} {f : B → B}
    {rows : Shadow B} (h : Loads rows (u :: us))
    (h₁ : ∀ p, rows₁.get p = if p = u.rowid then (rows.get p).map f else rows.get p) :
    Loads rows₁ us := by
  have hne : ∀ w ∈ us, w.rowid ≠ u.rowid := fun w hw hr =>
    (nodup_cons.1 h.once).1 (hr ▸ mem_map_of_mem hw)
  refine ⟨(nodup_cons.1 h.once).2, fun w hw => ?_, fun w hw => ?_⟩
  · rw [rows₁.mem_iff, h₁, if_neg (hne w hw), ← rows.mem_iff]
    exact h.there w (mem_cons_of_mem _ hw)
  · rw [h₁, if_neg (hne w hw)]
    exact h.block w (mem_cons_of_mem _ hw)

/-- **The second pass** gives every visited block its edge to the new row. -/
theorem linkVisited_ends (r : ℕ) (v : N)
    (h : Loads rows visited) :
    (linkVisited idx r v visited rows).Ends fun out => out.1 = none → ∀ p,
      out.2.get p = if p ∈ visited.map Node.rowid then (rows.get p).map (linked idx r v)
        else rows.get p := by
  induction visited generalizing rows with
  | nil => exact Ends.pure fun _ p => rfl
  | cons u us ih =>
    have hnot := (nodup_cons.1 h.once).1
    -- what is left to do when the block of `u` is done
    have hrest : ∀ rows₁ : Shadow (Block N E D),
        (∀ p, rows₁.get p =
          if p = u.rowid then (rows.get p).map (linked idx r v) else rows.get p) →
        (linkVisited idx r v us rows₁).Ends fun out => out.1 = none → ∀ p,
          out.2.get p = if p ∈ (u :: us).map Node.rowid
            then (rows.get p).map (linked idx r v) else rows.get p := by
      intro rows₁ h₁
      refine (ih (h.tail h₁)).mono fun out hout hok p => ?_
      rw [hout hok p, map_cons, h₁ p]
      by_cases hp : p = u.rowid
      · rw [if_neg (hp ▸ hnot), if_pos hp, if_pos (hp ▸ mem_cons_self)]
      · simp only [mem_cons, hp, false_or, if_false]
    obtain ⟨b, hb⟩ := isSome_iff_exists.1
      ((rows.mem_iff u.rowid).1 (h.there u mem_cons_self))
    have hu : u.block = some b := (h.block u mem_cons_self).trans hb
    unfold linkVisited
    rw [hu, bind_some]
    cases hadd : addEdge idx b r v with
    | none =>
      refine hrest rows fun p => ?_
      split_ifs with hp
      · rw [hp, hb, map_some, linked, hadd, getD_none]
      · rfl
    | some b' =>
      refine Ends.ask fun answer => ?_
      cases answer with
      | some c => exact Ends.pure (by rintro ⟨⟩)
      | none =>
        refine hrest (rows.put u.rowid b') fun p => ?_
        rw [RowTable.get_put]
        split_ifs with hp
        · rw [hp, hb, map_some, linked, hadd, getD_some]
        · rfl

/-- The block of the new row: its vector, and edges to visited rows as they are. -/
structure NewBlock (idx : Index N E D) (rows : Shadow (Block N E D)) (v : N) (b : Block N E D) :
    Prop where
  vector : b.vector = v
  distinct : DistinctEdges b.edges
  edges : ∀ e ∈ b.edges, ∃ b', rows.get e.rowid = some b' ∧ e = edgeTo idx b e.rowid b'.vector

/-- **The first pass** gives the new row edges to visited rows. -/
theorem linkNew_newBlock {v : N} {b : Block N E D}
    (h : ∀ u ∈ visited, u.block = rows.get u.rowid) (hb : NewBlock idx rows v b) :
    NewBlock idx rows v (linkNew idx b visited) := by
  induction visited generalizing b with
  | nil => exact hb
  | cons u us ih =>
    have hus : ∀ w ∈ us, w.block = rows.get w.rowid := fun w hw =>
      h w (mem_cons_of_mem _ hw)
    unfold linkNew
    split
    · exact ih hus hb
    rename_i ub hub
    refine ih hus ?_
    have hrow : rows.get u.rowid = some ub := (h u mem_cons_self).symm.trans hub
    cases hadd : addEdge idx b u.rowid ub.vector with
    | none => exact hb
    | some b' =>
      obtain ⟨hv, hd, hmem⟩ := mem_addEdge hb.distinct hadd
      refine ⟨hv.trans hb.vector, hd, fun e he => ?_⟩
      rcases hmem e he with rfl | ⟨he, -⟩
      · exact ⟨ub, hrow, (edgeTo_congr hv _ _).symm⟩
      · obtain ⟨b₁, hb₁, heq⟩ := hb.edges e he
        exact ⟨b₁, hb₁, heq.trans (edgeTo_congr hv _ _).symm⟩

/-- What a successful insertion leaves: the new row was not there, its block has current edges, and
the blocks that were visited have been offered the new row. -/
structure Inserted (idx : Index N E D) (rows : Shadow (Block N E D)) (r : ℕ) (v : N)
    (visited : List ℕ) (rows' : Shadow (Block N E D)) : Prop where
  new : r ∉ rows.rowids
  newBlock : ∃ b, rows'.get r = some b ∧ NewBlock idx rows v b
  other : ∀ p, p ≠ r → rows'.get p =
    if p ∈ visited then (rows.get p).map (linked idx r v) else rows.get p

/-- How an insertion ends: with the row in, or with nothing changed. -/
structure InsertEnds (idx : Index N E D) (rows : Shadow (Block N E D)) (r : ℕ) (v : N)
    (visited : List ℕ) (o : Written (Block N E D)) : Prop where
  ok : o.rc = none → Inserted idx rows r v visited o.rows
  failed : o.rc ≠ none → o.rows = rows

theorem insertRow_ends (idx : Index N E D) (r : ℕ) (v : N) (message : Option String)
    (h : Loads rows visited) :
    (insertRow idx rows (.rowidLike r) v message visited).Ends
      (InsertEnds idx rows r v (visited.map Node.rowid)) := by
  refine Ends.ask fun answer => ?_
  cases answer with
  | some c => exact Ends.pure ⟨nofun, fun _ => rfl⟩
  | none =>
    dsimp only [RowKey.newRowid]
    by_cases hr : r ∈ rows.rowids
    · rw [if_pos hr]
      exact Ends.pure ⟨nofun, fun _ => rfl⟩
    · rw [if_neg hr]
      refine Ends.of_true.bind fun created _ => ?_
      cases created with
      | error e => exact Ends.pure ⟨nofun, fun _ => rfl⟩
      | ok spot =>
        refine (linkVisited_ends r v h).bind fun out hout => ?_
        cases hrc : out.1 with
        | some e => exact Ends.pure ⟨nofun, fun _ => rfl⟩
        | none =>
          refine Ends.ask fun answer => ?_
          cases answer with
          | some c => exact Ends.pure ⟨nofun, fun _ => rfl⟩
          | none =>
            refine Ends.pure ⟨fun _ => ⟨hr, ?_, fun p hp => ?_⟩, fun h => absurd rfl h⟩
            · refine ⟨_, by rw [RowTable.get_put, if_pos rfl], linkNew_newBlock h.block ?_⟩
              exact ⟨rfl, nodup_nil, nofun⟩
            · rw [RowTable.get_put, if_neg hp]
              exact hout hrc p

/-- The rows that the walk of an insertion visits. -/
def visitedBy (idx : Index N E D) (rows : Shadow (Block N E D)) (pick r : ℕ) (v : N)
    (env : ℕ → Option Code) (n : ℕ) : List ℕ :=
  match (insertSetup idx rows pick (.rowidLike r) v).run env n with
  | (.inl _, _) => []
  | (.inr (ctx, start), m) => ((walk idx rows ctx start).run env m).1.ctx.visitedRows

/-- **What an insertion does**, whichever calls fail. -/
theorem insert_run (pick r : ℕ) (v : N)
    (env : ℕ → Option Code) (n : ℕ) :
    InsertEnds idx rows r v (visitedBy idx rows pick r v env n)
      ((diskAnnInsert idx rows pick (.rowidLike r) v).run env n).1 := by
  have hnone : Loads rows ([] : List (Node (Block N E D))) := ⟨nodup_nil, nofun, nofun⟩
  have hsetup := (insertSetup_cases (fun o hrc hrows => ⟨fun h => absurd h hrc, fun _ => hrows⟩)
    (insertRow_ends idx r v none hnone) pick).run env n
  rw [diskAnnInsert, withWalk, run_bind, visitedBy]
  generalize (insertSetup idx rows pick (.rowidLike r) v).run env n = s at hsetup ⊢
  obtain ⟨s, m⟩ := s
  cases s with
  | inl o => exact hsetup.1 o rfl
  | inr p =>
    obtain ⟨ctx, start⟩ := p
    obtain ⟨hctx, hmax, -⟩ := hsetup.2 _ rfl
    rw [run_bind, diskAnnSearchInternal, run_bind, run_pure]
    have hwalk := (walk_ends idx rows v 1 true start hmax).run env m
    rw [← hctx] at hwalk
    obtain ⟨hinv, hwritable, -⟩ := hwalk
    refine (insertRow_ends idx r v _ ⟨hinv.visitedOnce, fun u hu => ?_, hinv.loaded hwritable⟩).run env _
    exact hinv.visitedThere _ (mem_map_of_mem hu)

/-! #### Left-over edges -/

/-- Every edge to `r` that is left over from an earlier row is right for the new vector, or is in a
visited block in which the new edge is not pruned before it is found. -/
def Overridden (idx : Index N E D) (rows : Shadow (Block N E D)) (r : ℕ) (v : N)
    (visited : List ℕ) : Prop :=
  ∀ p b, rows.get p = some b → ∀ e ∈ b.edges, e.rowid = r →
    e = edgeTo idx b r v ∨ p ∈ visited ∧ replaceEdgeIdx idx b r (idx.convert v) ≠ none

theorem overridden_iff {r : ℕ} {v : N} {visited : List ℕ} :
    Overridden idx rows r v visited ↔
      ∀ p ∈ rows.rowids, ∀ b ∈ rows.get p, ∀ e ∈ b.edges, e.rowid = r →
        e = edgeTo idx b r v ∨ p ∈ visited ∧ replaceEdgeIdx idx b r (idx.convert v) ≠ none :=
  ⟨fun h p _ b hb => h p b hb,
    fun h p b hb => h p ((rows.mem_iff p).2 (isSome_of_eq_some hb)) b hb⟩

instance [DecidableEq E] [DecidableEq D] (idx : Index N E D) (rows : Shadow (Block N E D)) (r : ℕ)
    (v : N) (visited : List ℕ) : Decidable (Overridden idx rows r v visited) :=
  decidable_of_iff' _ overridden_iff

section Inserted

variable {r : ℕ} {v : N} {visited : List ℕ} {p : ℕ} {e : Edge E D}

theorem Inserted.ne (h : Inserted idx rows r v visited rows') (hb : rows.get p = some b) :
    p ≠ r := by
  rintro rfl
  exact h.new ((rows.mem_iff p).2 (isSome_of_eq_some hb))

/-- What the insertion makes of the block `b` of `p`. -/
def offered (idx : Index N E D) (r : ℕ) (v : N) (visited : List ℕ) (p : ℕ) (b : Block N E D) :
    Block N E D :=
  if p ∈ visited then linked idx r v b else b

/-- A block that was offered the new row has the edges it had to other rows. -/
theorem offered_spec (hd : DistinctEdges b.edges) :
    (offered idx r v visited p b).vector = b.vector ∧
      DistinctEdges (offered idx r v visited p b).edges ∧
      ∀ e ∈ (offered idx r v visited p b).edges, e = edgeTo idx b r v ∨ e ∈ b.edges ∧
        (e.rowid = r → p ∈ visited → replaceEdgeIdx idx b r (idx.convert v) = none) := by
  unfold offered linked
  split_ifs with hp
  · cases hadd : addEdge idx b r v with
    | none => exact ⟨rfl, hd, fun e he => Or.inr ⟨he, fun _ _ => map_eq_none_iff.1 hadd⟩⟩
    | some b' =>
      obtain ⟨hv, hdistinct, hmem⟩ := mem_addEdge hd hadd
      refine ⟨hv, hdistinct, fun e he => (hmem e he).imp_right fun hold => ?_⟩
      exact ⟨hold.1, fun hr => absurd hr hold.2⟩
  · exact ⟨rfl, hd, fun e he => Or.inr ⟨he, fun _ hin => absurd hin hp⟩⟩

variable (h : Inserted idx rows r v visited rows')
include h

theorem Inserted.block (hb : rows.get p = some b) :
    rows'.get p = some (offered idx r v visited p b) := by
  rw [h.other p (h.ne hb), hb, offered]
  split_ifs <;> rfl

theorem Inserted.vector (hd : Distinct rows)
    (hp : p ≠ r) (hb' : rows'.get p = some b') :
    ∃ b, rows.get p = some b ∧ b'.vector = b.vector ∧ b' = offered idx r v visited p b := by
  rw [h.other p hp] at hb'
  cases hb : rows.get p with
  | none => simp [hb] at hb'
  | some b =>
    have hb' := hb'.symm.trans ((h.other p hp).symm.trans (h.block hb))
    cases hb'
    exact ⟨b, rfl, (offered_spec (hd p b hb)).1, rfl⟩

theorem Inserted.distinct (hd : Distinct rows) :
    Distinct rows' := by
  intro p b' hb'
  by_cases hp : p = r
  · subst hp
    obtain ⟨b, hb, hnew⟩ := h.newBlock
    obtain rfl := some.inj (hb.symm.trans hb')
    exact hnew.distinct
  · obtain ⟨b, hb, -, rfl⟩ := h.vector hd hp hb'
    exact (offered_spec (hd p b hb)).2.1

omit h

theorem offered_old (hd : DistinctEdges b.edges)
    (he : e ∈ (offered idx r v visited p b).edges) (hr : e.rowid ≠ r) : e ∈ b.edges := by
  rcases (offered_spec hd).2.2 e he with rfl | ⟨he, -⟩
  · exact absurd rfl hr
  · exact he

theorem offered_new (hd : Distinct rows) (hb : rows.get p = some b)
    (he : e ∈ (offered idx r v visited p b).edges) (hr : e.rowid = r)
    (hover : Overridden idx rows r v visited) : e = edgeTo idx b r v := by
  rcases (offered_spec (hd p b hb)).2.2 e he with heq | ⟨hold, hnone⟩
  · exact heq
  · rcases hover p b hb e hold hr with heq | ⟨hin, hsome⟩
    · exact heq
    · exact absurd (hnone hr hin) hsome

/-- **An insertion keeps the edges current exactly when the left-over edges are overridden.** -/
theorem insert_current_iff (h : Inserted idx rows r v visited rows') (hc : Current idx rows)
    (hd : Distinct rows) : Current idx rows' ↔ Overridden idx rows r v visited := by
  constructor
  · intro hc' p b hb e he hr
    by_cases hcov : p ∈ visited ∧ replaceEdgeIdx idx b r (idx.convert v) ≠ none
    · exact Or.inr hcov
    refine Or.inl ?_
    -- the block is as it was, so the left-over edge is still in it
    have hb' : rows'.get p = some b := by
      rw [h.block hb, offered]
      split_ifs with hp
      · have hidx : replaceEdgeIdx idx b r (idx.convert v) = none := by
          by_contra hne
          exact hcov ⟨hp, hne⟩
        rw [linked, addEdge, hidx, map_none, getD_none]
      · rfl
    obtain ⟨bn, hbn, hnew⟩ := h.newBlock
    have heq := hc' p b hb' e he bn (hr ▸ hbn)
    rwa [hr, hnew.vector] at heq
  · intro hover p b' hb' e he b₁' hb₁'
    have hold : e.rowid ≠ r → ∃ b₁, rows.get e.rowid = some b₁ ∧ b₁'.vector = b₁.vector := by
      intro hne
      obtain ⟨b₁, hb₁, hv₁, -⟩ := h.vector hd hne hb₁'
      exact ⟨b₁, hb₁, hv₁⟩
    by_cases hp : p = r
    · subst hp
      obtain ⟨bn, hbn, hnew⟩ := h.newBlock
      obtain rfl := some.inj (hbn.symm.trans hb')
      obtain ⟨b₁, hb₁, heq⟩ := hnew.edges e he
      obtain ⟨b₂, hb₂, hv₂⟩ := hold (h.ne hb₁)
      obtain rfl := some.inj (hb₁.symm.trans hb₂)
      rw [hv₂]
      exact heq
    · obtain ⟨b, hb, hv, rfl⟩ := h.vector hd hp hb'
      rw [edgeTo_congr hv]
      by_cases hr : e.rowid = r
      · obtain ⟨bn, hbn, hnew⟩ := h.newBlock
        obtain rfl := some.inj ((hr ▸ hbn).symm.trans hb₁')
        rw [hr, hnew.vector]
        exact offered_new hd hb he hr hover
      · obtain ⟨b₁, hb₁, hv₁⟩ := hold hr
        rw [hv₁]
        exact hc p b hb e (offered_old (hd p b hb) he hr) b₁ hb₁

end Inserted

/-! ### Runs -/

/-- What is done to an index with integer keys; an update of a vector is a deletion and an
insertion of the same key.  `pick` is the random number of the insertion, `env` what becomes of the
calls made. -/
inductive Action (N : Type)
  | insert (r pick : ℕ) (v : N) (env : ℕ → Option Code)
  | delete (r : ℕ) (env : ℕ → Option Code)
  | update (r pick : ℕ) (v : N) (env : ℕ → Option Code)

/-- One step.  It is assumed of SQLite that it takes back what a failed statement has done: the two
updates of the index that an `UPDATE` makes stay or go together. -/
def step (idx : Index N E D) (rows : Shadow (Block N E D)) :
    Action N → Option (Shadow (Block N E D))
  | .insert r pick v env => some ((diskAnnInsert idx rows pick (.rowidLike r) v).run env 0).1.rows
  | .delete r env => some ((diskAnnDelete rows (.rowidLike r)).run env 0).1.rows
  | .update r pick v env =>
    let deleted := (diskAnnDelete rows (.rowidLike r)).run env 0
    let inserted := (diskAnnInsert idx deleted.1.rows pick (.rowidLike r) v).run env deleted.2
    if deleted.1.rc = none ∧ inserted.1.rc = none then some inserted.1.rows else some rows

/-- An insertion that succeeds overrides the edges that are left over to its row. -/
def Careful (idx : Index N E D) (rows : Shadow (Block N E D)) : Action N → Prop
  | .insert r pick v env =>
    ((diskAnnInsert idx rows pick (.rowidLike r) v).run env 0).1.rc = none →
      Overridden idx rows r v (visitedBy idx rows pick r v env 0)
  | .delete _ _ => True
  | .update r pick v env =>
    let deleted := (diskAnnDelete rows (.rowidLike r)).run env 0
    let inserted := (diskAnnInsert idx deleted.1.rows pick (.rowidLike r) v).run env deleted.2
    deleted.1.rc = none ∧ inserted.1.rc = none →
      Overridden idx deleted.1.rows r v (visitedBy idx deleted.1.rows pick r v env deleted.2)

instance [DecidableEq E] [DecidableEq D] (idx : Index N E D) (rows : Shadow (Block N E D)) :
    (a : Action N) → Decidable (Careful idx rows a)
  | .insert _ _ _ _ => by unfold Careful; infer_instance
  | .delete _ _ => isTrue trivial
  | .update _ _ _ _ => by unfold Careful; infer_instance

theorem insert_step_iff (hc : Current idx rows) (hd : Distinct rows) (pick r : ℕ) (v : N)
    (env : ℕ → Option Code) (n : ℕ) :
    Distinct ((diskAnnInsert idx rows pick (.rowidLike r) v).run env n).1.rows ∧
      (Current idx ((diskAnnInsert idx rows pick (.rowidLike r) v).run env n).1.rows ↔
        (((diskAnnInsert idx rows pick (.rowidLike r) v).run env n).1.rc = none →
          Overridden idx rows r v (visitedBy idx rows pick r v env n))) := by
  obtain ⟨hok, hfailed⟩ := insert_run pick r v env n
  by_cases hrc : ((diskAnnInsert idx rows pick (.rowidLike r) v).run env n).1.rc = none
  · have hins := hok hrc
    exact ⟨hins.distinct hd, by rw [insert_current_iff hins hc hd, imp_iff_right hrc]⟩
  · rw [hfailed hrc]
    exact ⟨hd, iff_of_true hc fun h => absurd h hrc⟩

/-- **A step keeps the edges current exactly when it is careful.** -/
theorem step_current_iff (hc : Current idx rows) (hd : Distinct rows) {a : Action N}
    (hstep : step idx rows a = some rows') :
    Distinct rows' ∧ (Current idx rows' ↔ Careful idx rows a) := by
  cases a with
  | insert r pick v env =>
    cases hstep
    exact insert_step_iff hc hd pick r v env 0
  | delete r env =>
    cases hstep
    have hshrunk := (deleteNode_shrunk rows r).run env 0
    exact ⟨hshrunk.distinct hd, iff_of_true (hshrunk.current hc) trivial⟩
  | update r pick v env =>
    have hshrunk := (deleteNode_shrunk rows r).run env 0
    have hiff := insert_step_iff (hshrunk.current hc) (hshrunk.distinct hd) pick r v env
      ((deleteNode rows r).run env 0).2
    simp only [step] at hstep
    split_ifs at hstep with hrc
    · cases hstep
      refine ⟨hiff.1, hiff.2.trans ?_⟩
      exact ⟨fun h hrc => h hrc.2, fun h _ => h hrc⟩
    · cases hstep
      exact ⟨hd, iff_of_true hc fun h => absurd h hrc⟩

/-- **Edges lead to rows as they are**, in every state that a run of careful steps reaches, and
from there a step keeps them so exactly when it is careful. -/
theorem current_of_careful {actions : List (Action N)}
    (hcareful : Run.Along (step idx) (Careful idx) RowTable.empty actions)
    (hrun : Run.exec (step idx) RowTable.empty actions = some rows) :
    Current idx rows ∧
      ∀ a rows', step idx rows a = some rows' → (Current idx rows' ↔ Careful idx rows a) := by
  have hinv : Current idx rows ∧ Distinct rows := by
    refine Run.exec_invariant (I := fun rows => Current idx rows ∧ Distinct rows) ?_ ?_ hcareful
      hrun
    · intro s a s' hs ha hstep
      obtain ⟨hd, hiff⟩ := step_current_iff hs.1 hs.2 hstep
      exact ⟨hiff.2 ha, hd⟩
    · exact ⟨nofun, nofun⟩
  exact ⟨hinv.1, fun a rows' hstep => (step_current_iff hinv.1 hinv.2 hstep).2⟩

/-- No call fails. -/
def quiet : ℕ → Option Code := fun _ => none

/-- Two rows, one of which gets another vector: the walk visits the other row and the left-over
edge there is overridden. -/
theorem current_of_careful_moved :
    ∃ rows, Run.exec (step line) RowTable.empty
        [.insert 1 0 0 quiet, .insert 2 0 (-10) quiet, .update 2 0 (-9) quiet] = some rows ∧
      rows.get 1 = some ⟨0, [⟨2, 9, -9⟩]⟩ ∧ Current line rows := by
  obtain ⟨rows, hrows, hblock⟩ : ∃ rows, Run.exec (step line) RowTable.empty
      [.insert 1 0 0 quiet, .insert 2 0 (-10) quiet, .update 2 0 (-9) quiet] = some rows ∧
      rows.get 1 = some ⟨0, [⟨2, 9, -9⟩]⟩ := by decide +kernel
  exact ⟨rows, hrows, hblock, (current_of_careful (by decide +kernel) hrows).1⟩

/-- The row `2` moves from one side of row `1` to the other, beside row `3`: the edge from `1` to
`3` prunes the new edge before the left-over one is found, so `1` still leads to where `2` was. -/
theorem stale_edge :
    ∃ rows, Run.exec (step line) RowTable.empty
        [.insert 1 0 0 quiet, .insert 2 0 (-10) quiet, .insert 3 0 10 quiet, .update 2 0 11 quiet]
          = some rows ∧
      rows.get 1 = some ⟨0, [⟨2, 10, -10⟩, ⟨3, 10, 10⟩]⟩ ∧
      (rows.get 2).map Block.vector = some 11 ∧ ¬ Current line rows := by
  obtain ⟨rows, hrows, h₁, h₂⟩ : ∃ rows, Run.exec (step line) RowTable.empty
      [.insert 1 0 0 quiet, .insert 2 0 (-10) quiet, .insert 3 0 10 quiet,
        .update 2 0 11 quiet] = some rows ∧ rows.get 1 = some ⟨0, [⟨2, 10, -10⟩, ⟨3, 10, 10⟩]⟩ ∧
      rows.get 2 = some ⟨11, [⟨1, 11, 0⟩, ⟨3, 1, 10⟩]⟩ := by decide +kernel
  refine ⟨rows, hrows, h₁, by rw [h₂]; rfl, fun hc => ?_⟩
  have hedge := hc 1 _ h₁ ⟨2, 10, -10⟩ List.mem_cons_self _ h₂
  revert hedge
  decide

end SqlAnywhere.DiskAnn
