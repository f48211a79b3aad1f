import SqlAnywhere.DiskAnn.Context

/-!
# The rounds of the walk

* `visit_ends` — a round keeps the invariant and brings the walk nearer to its end
* `walk_ends` — the walk ends with an error or with every candidate visited
* `walk_clean` — when no call fails, it ends without an error
* `walk_visits` — which rows a walk visits
-/

namespace SqlAnywhere.DiskAnn

open List Option Calls

variable {N E D B : Type}

section Walk

variable {idx : Index N E D} {rows : Shadow (Block N E D)}

/-- What a round leaves as it was. -/
structure SearchCtx.SameFrame (ctx ctx' : SearchCtx N D B) : Prop where
  query : ctx'.query = ctx.query
  maxCandidates : ctx'.maxCandidates = ctx.maxCandidates
  writable : ctx'.writable = ctx.writable

theorem SearchCtx.SameFrame.trans {a b c : SearchCtx N D B} (hab : a.SameFrame b)
    (hbc : b.SameFrame c) : a.SameFrame c :=
  ⟨hbc.query.trans hab.query, hbc.maxCandidates.trans hab.maxCandidates,
    hbc.writable.trans hab.writable⟩

theorem addNeighbours_ends (es : List (Edge E D)) {ctx : SearchCtx N D (Block N E D)}
    (h : ctx.Inv rows) :
    (addNeighbours idx es ctx).Ends fun ctx' =>
      ctx'.Inv rows ∧ ctx'.visitedList = ctx.visitedList ∧ ctx.SameFrame ctx' := by
  induction es generalizing ctx with
  | nil => exact Ends.pure ⟨h, rfl, rfl, rfl, rfl⟩
  | cons e es ih =>
    unfold addNeighbours
    split
    · exact ih h
    rename_i hnew
    rw [Bool.or_eq_true, not_or] at hnew
    dsimp only
    split
    · exact ih h
    rename_i i hi
    refine Ends.ask fun r => ?_
    split
    · exact ih h
    have hcand : ∀ c ∈ ctx.candidates, c.1.rowid ≠ e.rowid := fun c hc hr =>
      hnew.2 (any_eq_true.2 ⟨c, hc, decide_eq_true hr⟩)
    have hvisited : e.rowid ∉ ctx.visitedRows := by
      intro hmem
      obtain ⟨v, hv, hr⟩ := mem_map.1 hmem
      exact hnew.1 (any_eq_true.2 ⟨v, hv, decide_eq_true hr⟩)
    have hins : (ctx.insertCandidate i ⟨e.rowid, false, none⟩
        (idx.edgeDistance (idx.convert ctx.query) e.vector)).Inv rows :=
      h.insertCandidate _ (SearchCtx.shouldAddCandidate_lt h hi) rfl hcand hvisited nofun
    exact (ih hins).mono fun ctx' h' => ⟨h'.1, h'.2.1, ⟨h'.2.2.1, h'.2.2.2, h'.2.2.3⟩⟩

/-- What a walk keeps to. -/
structure Walk.Inv (rows : Shadow B) (w : Walk N D B) : Prop where
  ctx : w.ctx.Inv rows
  spot : ∀ spot ∈ w.reusable, spot.Good rows
  mode : w.ctx.writable = true → w.reusable = none

variable {w : Walk N D (Block N E D)} {i : ℕ} {c : Node (Block N E D) × D}

/-- **A round keeps the invariant and brings the walk nearer to its end.** -/
theorem visit_ends (h : w.Inv rows) (hc : w.ctx.candidates[i]? = some c)
    (hv : c.1.visited = false) :
    (visit idx rows w i c).Ends fun w' =>
      w'.Inv rows ∧ w.ctx.SameFrame w'.ctx ∧
        (w'.rc = none → w'.ctx.remaining rows < w.ctx.remaining rows) := by
  have hcmem : c ∈ w.ctx.candidates := mem_of_getElem? hc
  refine (loadCandidate_ends h.spot (h.ctx.blobs c hcmem hv)).bind fun r hr => ?_
  have hmode : w.ctx.writable = true → r.reusable = none := by
    intro hw
    have hreused := hr.reused
    rw [h.mode hw] at hreused
    simpa using hreused
  cases hb : r.block with
  | error e =>
    cases e with
    | rowNotFound =>
      refine Ends.pure ⟨⟨h.ctx.deleteCandidate hc hv, hr.spot, hmode⟩, ⟨rfl, rfl, rfl⟩,
        fun _ => ?_⟩
      have hpos := h.ctx.nUnvisited_pos hcmem hv
      have hless : w.ctx.nUnvisited - 1 < w.ctx.nUnvisited := by omega
      exact Nat.add_lt_add_left hless _
    | failed e =>
      exact Ends.pure ⟨⟨h.ctx, hr.spot, hmode⟩, ⟨rfl, rfl, rfl⟩, nofun⟩
  | ok b =>
    obtain ⟨hblock, hown⟩ := hr.block b hb
    have hthere : c.1.rowid ∈ rows.rowids :=
      (rows.mem_iff _).2 (isSome_of_eq_some hblock)
    have hnot : c.1.rowid ∉ w.ctx.visitedRows := h.ctx.fresh c hcmem hv
    have hlt := h.ctx.visited_lt hthere hnot
    have hmark := h.ctx.markVisited idx hc hv hr.rowid hthere
      (fun hw => (hown (h.mode hw)).trans hblock.symm)
      (if idx.compressed then idx.distance b.vector w.ctx.query else c.2)
    refine (addNeighbours_ends b.edges hmark).bind fun ctx' hctx' => ?_
    obtain ⟨hinv, hvisited, hsame⟩ := hctx'
    refine Ends.pure ⟨⟨hinv, hr.spot, fun hw => hmode (hsame.writable ▸ hw)⟩,
      ⟨hsame.query, hsame.maxCandidates, hsame.writable⟩, fun _ => ?_⟩
    exact SearchCtx.remaining_lt (congrArg length hvisited) hlt hsame.maxCandidates
      hinv.nUnvisited_le

/-- The loop stops with an error, or when every candidate was visited. -/
theorem walkFrom_ends (fuel : ℕ) (h : w.Inv rows)
    (hfuel : w.rc = none → w.ctx.remaining rows ≤ fuel) :
    (walkFrom idx rows fuel w).Ends fun w' =>
      w'.Inv rows ∧ w.ctx.SameFrame w'.ctx ∧ (w'.rc = none → w'.ctx.nUnvisited = 0) := by
  induction fuel generalizing w with
  | zero =>
    refine Ends.pure ⟨h, ⟨rfl, rfl, rfl⟩, fun hrc => ?_⟩
    have hzero := hfuel hrc
    rw [SearchCtx.remaining] at hzero
    omega
  | succ fuel ih =>
    unfold walkFrom
    split
    · next hgo =>
      obtain ⟨i, c, hi, hc, hv⟩ := h.ctx.exists_closest hgo.2
      simp only [hi, hc, bind_some, map_some]
      refine (visit_ends h hc hv).bind fun w' hw' => ?_
      obtain ⟨hinv, hsame, hless⟩ := hw'
      have hle : w'.rc = none → w'.ctx.remaining rows ≤ fuel := by
        intro hrc
        have hlt := hless hrc
        have hmax := hfuel hgo.1
        omega
      exact (ih hinv hle).mono fun w'' hw'' => ⟨hw''.1, hsame.trans hw''.2.1, hw''.2.2⟩
    · next hstop =>
      refine Ends.pure ⟨h, ⟨rfl, rfl, rfl⟩, fun hrc => ?_⟩
      rw [not_and, Nat.not_lt, Nat.le_zero] at hstop
      exact hstop hrc

theorem visit_clean (h : w.Inv rows) (hc : w.ctx.candidates[i]? = some c)
    (hv : c.1.visited = false) : (visit idx rows w i c).clean.rc = w.rc := by
  have hcmem : c ∈ w.ctx.candidates := mem_of_getElem? hc
  have hfound := loadCandidate_clean h.spot (h.ctx.blobs c hcmem hv)
  rw [visit, clean_bind]
  cases hb : rows.get c.1.rowid with
  | none =>
    rw [found, hb] at hfound
    rw [hfound]
    rfl
  | some b =>
    rw [found, hb] at hfound
    rw [hfound]
    rw [clean_bind, clean_pure]

theorem walkFrom_clean (fuel : ℕ) (h : w.Inv rows) (hrc : w.rc = none) :
    (walkFrom idx rows fuel w).clean.rc = none := by
  induction fuel generalizing w with
  | zero => exact hrc
  | succ fuel ih =>
    unfold walkFrom
    split
    · next hgo =>
      obtain ⟨i, c, hi, hc, hv⟩ := h.ctx.exists_closest hgo.2
      simp only [hi, hc, bind_some, map_some, clean_bind]
      exact ih (visit_ends h hc hv).clean.1 ((visit_clean h hc hv).trans hrc)
    · exact hrc

/-! #### From the start row on -/

variable {query : N} {max top : ℕ} {writable : Bool} {start : ℕ}

theorem Walk.begin_inv (hmax : 0 < max) {r : BlobSpot (Block N E D)} (hr : r.Good rows)
    (b : Block N E D) :
    (Walk.begin idx (SearchCtx.init query max top writable) start r b).Inv rows := by
  refine ⟨SearchCtx.init_inv.insertCandidate _ hmax rfl nofun nofun ?_, ?_,
    fun hw => if_pos hw⟩
  · intro spot hspot
    cases writable with
    | true =>
      cases hspot
      exact hr
    | false => cases hspot
  · intro spot hspot
    cases writable with
    | true => cases hspot
    | false =>
      cases hspot
      exact hr

/-- **The walk ends with an error or with every candidate visited**, whichever calls fail. -/
theorem walk_ends (idx : Index N E D) (rows : Shadow (Block N E D)) (query : N) (top : ℕ)
    (writable : Bool) (start : ℕ) (hmax : 0 < max) :
    (walk idx rows (.init query max top writable) start).Ends fun w =>
      w.ctx.Inv rows ∧ w.ctx.writable = writable ∧ (w.rc = none → w.ctx.nUnvisited = 0) := by
  have hinit : (SearchCtx.init query max top writable : SearchCtx N D (Block N E D)).Inv rows :=
    SearchCtx.init_inv
  refine Ends.ask fun r => ?_
  split
  · exact Ends.pure ⟨hinit, rfl, nofun⟩
  refine (blobSpotCreate_ends rows start).bind fun created hcreated => ?_
  cases created with
  | error e => exact Ends.pure ⟨hinit, rfl, nofun⟩
  | ok spot =>
    refine (blobSpotReload_ends (hcreated.1 spot rfl) start).bind fun r hr => ?_
    cases hb : r.2 with
    | error e => exact Ends.pure ⟨hinit, rfl, nofun⟩
    | ok b =>
      have hinv : (Walk.begin idx (.init query max top writable) start r.1 b).Inv rows :=
        Walk.begin_inv hmax hr.good b
      refine (walkFrom_ends _ hinv fun _ => hinv.ctx.remaining_le).mono ?_
      intro w hw
      exact ⟨hw.1.ctx, hw.2.1.writable, hw.2.2⟩

theorem walk_clean (idx : Index N E D) (query : N) (top : ℕ) (writable : Bool) (hmax : 0 < max)
    (hstart : start ∈ rows.rowids) :
    (walk idx rows (.init query max top writable) start).clean.rc = none := by
  obtain ⟨b, hb⟩ := isSome_iff_exists.1 ((rows.mem_iff start).1 hstart)
  have hcreated := (blobSpotCreate_ends rows start).clean.1
  rw [blobSpotCreate_clean, hb] at hcreated
  have hgood := hcreated _ rfl
  have hfound := blobSpotReload_clean hgood start
  rw [found, hb] at hfound
  have hreloaded := (blobSpotReload_ends hgood start).clean
  simp only [walk, clean_bind, clean_ask, isSome_none, Bool.false_eq_true,
    if_false, blobSpotCreate_clean, hb, isSome_some, if_true, hfound]
  exact walkFrom_clean _ (Walk.begin_inv hmax hreloaded.good b) rfl

/-- **The walk visits no row twice and none that is not there**, whichever calls fail; it leaves a
candidate unvisited only if it ends with an error, and it does not if no call fails and there is a row
to start from. -/
theorem walk_visits (idx : Index N E D) (rows : Shadow (Block N E D)) (query : N) (max top : ℕ)
    (writable : Bool) (start : ℕ) (env : ℕ → Option Code) :
    let w := ((walk idx rows (.init query (max + 1) top writable) start).run env 0).1
    (w.ctx.visitedRows.Nodup ∧ w.ctx.visitedRows ⊆ rows.rowids) ∧
      (w.rc = none → ∀ c ∈ w.ctx.candidates, c.1.visited = true) ∧
      (start ∈ rows.rowids → (∀ i, env i = none) → w.rc = none) := by
  intro w
  have hmax := Nat.succ_pos max
  obtain ⟨hinv, -, hdone⟩ := (walk_ends idx rows query top writable start hmax).run env 0
  refine ⟨⟨hinv.visitedOnce, hinv.visitedThere⟩, fun hrc => hinv.all_visited (hdone hrc), ?_⟩
  intro hstart henv
  have hclean : w = _ := run_eq_clean fun i _ _ => henv i
  rw [hclean]
  exact walk_clean idx query top writable hmax hstart

end Walk

end SqlAnywhere.DiskAnn
