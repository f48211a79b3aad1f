import SqlAnywhere.DiskAnn.Operations
import SqlAnywhere.DiskAnn.Rounds

/-!
# Failed calls in the walk of a search or an insertion

A search and an insertion look at the result code of the walk and go on only when it is
`SQLITE_OK`, but the walk returns nothing else.

* `Reports` — a failed call in the walk makes the operation fail
* `reports_iff` — when an operation does so
-/

namespace SqlAnywhere.DiskAnn

open Calls

variable {N E D B O : Type}

/-! ### The walk of an operation -/

section Operation

variable (idx : Index N E D) (rows : Shadow (Block N E D))
  (setup : Calls Code (O ⊕ SearchCtx N D (Block N E D) × ℕ))
  (finish : SearchCtx N D (Block N E D) × Option String × Rc → Calls Code O)
  (ok : O → Prop) (env : ℕ → Option Code)

/-- The run of the walk of an operation, from the call on where its set-up ends. -/
def walkRun (p : SearchCtx N D (Block N E D) × ℕ) : Walk N D (Block N E D) × ℕ :=
  (walk idx rows p.1 p.2).run env (setup.run env 0).2

/-- A call of the walk fails: memory for a node or a block, the opening of a block or its reading.
That a row is missing is no failure. -/
def WalkFails (p : SearchCtx N D (Block N E D) × ℕ) : Prop :=
  ∃ i, (setup.run env 0).2 ≤ i ∧ i < (walkRun idx rows setup env p).2 ∧ env i ≠ none

/-- A call that the operation makes after the walk fails. -/
def LaterFails (p : SearchCtx N D (Block N E D) × ℕ) : Prop :=
  ∃ i, (walkRun idx rows setup env p).2 ≤ i ∧
    i < ((withWalk idx rows setup finish).run env 0).2 ∧ env i ≠ none

/-- The walk is the one that meets no failure, and has visited every candidate. -/
structure Complete (p : SearchCtx N D (Block N E D) × ℕ) (w : Walk N D (Block N E D)) : Prop where
  clean : w = (walk idx rows p.1 p.2).clean
  rc : w.rc = none
  visited : ∀ c ∈ w.ctx.candidates, c.1.visited = true

/-- **A failed call in the walk makes the operation fail, and a success comes from a complete
walk.** -/
def Reports : Prop :=
  ∀ p, (setup.run env 0).1 = .inr p →
    (WalkFails idx rows setup env p → ¬ ok ((withWalk idx rows setup finish).run env 0).1) ∧
      (ok ((withWalk idx rows setup finish).run env 0).1 →
        Complete idx rows p (walkRun idx rows setup env p).1)

/-- A set-up that leads to a walk has an empty context with room in it and a row to start from. -/
def Ready (r : O ⊕ SearchCtx N D (Block N E D) × ℕ) : Prop :=
  ∀ p, r = .inr p → ∃ query max top writable,
    p.1 = .init query max top writable ∧ 0 < max ∧ p.2 ∈ rows.rowids

end Operation

section Reports

variable {idx : Index N E D} {rows : Shadow (Block N E D)}
  {setup : Calls Code (O ⊕ SearchCtx N D (Block N E D) × ℕ)}
  {finish : SearchCtx N D (Block N E D) × Option String × Rc → Calls Code O}
  {ok : O → Prop} {env : ℕ → Option Code} {p : SearchCtx N D (Block N E D) × ℕ}

/-- An operation whose set-up leads to a walk goes on after it as if it had succeeded. -/
theorem withWalk_run (hp : (setup.run env 0).1 = .inr p) :
    (withWalk idx rows setup finish).run env 0 =
      (finish ((walkRun idx rows setup env p).1.ctx, (walkRun idx rows setup env p).1.message,
        none)).run env (walkRun idx rows setup env p).2 := by
  obtain ⟨ctx, start⟩ := p
  rw [withWalk, run_bind, hp]
  rw [run_bind, diskAnnSearchInternal, run_bind, run_pure]
  rfl

theorem complete_of_not_walkFails (hsetup : setup.Ends (Ready rows))
    (hp : (setup.run env 0).1 = .inr p) (h : ¬ WalkFails idx rows setup env p) :
    Complete idx rows p (walkRun idx rows setup env p).1 := by
  have hclean : (walkRun idx rows setup env p).1 = (walk idx rows p.1 p.2).clean := by
    refine run_eq_clean fun i hle hlt => ?_
    by_contra hne
    exact h ⟨i, hle, hlt, hne⟩
  obtain ⟨query, max, top, writable, hctx, hmax, hstart⟩ := hsetup.run env 0 p hp
  have hrc := walk_clean idx query top writable hmax hstart
  obtain ⟨hinv, -, hzero⟩ := (walk_ends idx rows query top writable p.2 hmax).clean
  rw [← hctx, ← hclean] at hrc hinv hzero
  exact ⟨hclean, hrc, hinv.all_visited (hzero hrc)⟩

/-- **An operation whose later steps report what fails reports a failed walk only when there is
none, or when a later step fails as well.** -/
theorem reports_iff_of_strict (hsetup : setup.Ends (Ready rows))
    (hfinish : ∀ walked, (finish walked).Strict ok) :
    Reports idx rows setup finish ok env ↔ ∀ p, (setup.run env 0).1 = .inr p →
      ¬ WalkFails idx rows setup env p ∨ LaterFails idx rows setup finish env p ∨
        ¬ ok (finish ((walkRun idx rows setup env p).1.ctx,
          (walkRun idx rows setup env p).1.message, none)).clean := by
  refine forall_congr' fun p => imp_congr_right fun hp => ?_
  have hok := (hfinish ((walkRun idx rows setup env p).1.ctx,
    (walkRun idx rows setup env p).1.message, none)).iff env (walkRun idx rows setup env p).2
  rw [← withWalk_run hp] at hok
  constructor
  · rintro ⟨hreport, -⟩
    by_cases hwalk : WalkFails idx rows setup env p
    · have hbad := hreport hwalk
      rw [hok, not_and] at hbad
      by_cases hlater : LaterFails idx rows setup finish env p
      · exact Or.inr (Or.inl hlater)
      · refine Or.inr (Or.inr (hbad fun i hle hlt => ?_))
        by_contra hne
        exact hlater ⟨i, hle, hlt, hne⟩
    · exact Or.inl hwalk
  · rintro (hwalk | ⟨i, hle, hlt, hne⟩ | hbad)
    · exact ⟨fun h => absurd h hwalk, fun _ => complete_of_not_walkFails hsetup hp hwalk⟩
    · have hbad : ¬ ok ((withWalk idx rows setup finish).run env 0).1 :=
        fun h => hne ((hok.1 h).1 i hle hlt)
      exact ⟨fun _ => hbad, fun h => absurd h hbad⟩
    · have hbad : ¬ ok ((withWalk idx rows setup finish).run env 0).1 := fun h => hbad (hok.1 h).2
      exact ⟨fun _ => hbad, fun h => absurd h hbad⟩

end Reports

/-! ### The set-ups -/

theorem selectRandomShadowRow_ends (rows : Shadow B) (pick : ℕ) :
    (selectRandomShadowRow rows pick).Ends fun r =>
      ∀ start, r = .ok (some start) → start ∈ rows.rowids := by
  refine Ends.ask fun r => ?_
  cases r with
  | some c => exact Ends.pure nofun
  | none => exact Ends.pure fun start h => List.mem_of_getElem? (Except.ok.inj h)

variable (idx : Index N E D) (rows : Shadow (Block N E D))

theorem searchCtxInit_ends (max top : ℕ) :
    (searchCtxInit idx max top).Ends fun ready => ready = true → 0 < max := by
  refine Ends.of_true.bind fun pair _ => ?_
  split
  · refine Ends.of_true.bind fun _ _ => Ends.of_true.bind fun _ _ =>
      Ends.of_true.bind fun _ _ => Ends.of_true.bind fun _ _ => ?_
    refine Ends.pure fun h => ?_
    simp only [Bool.and_eq_true, decide_eq_true_eq] at h
    exact h.1.2
  · exact Ends.pure nofun

theorem searchSetup_ends (pick : ℕ) (query : N) (k searchL : ℤ) :
    (searchSetup idx rows pick query k searchL).Ends (Ready rows) := by
  unfold searchSetup
  split_ifs
  · exact Ends.pure nofun
  · exact Ends.pure nofun
  · exact Ends.pure nofun
  refine (selectRandomShadowRow_ends rows pick).bind fun r hr => ?_
  cases r with
  | error c => exact Ends.pure nofun
  | ok start =>
    cases start with
    | none => exact Ends.pure nofun
    | some start =>
      refine (searchCtxInit_ends idx _ _).bind fun ready hready => ?_
      split
      · next h =>
        refine Ends.pure fun p hp => ?_
        cases hp
        exact ⟨query, _, _, false, rfl, hready h, hr start rfl⟩
      · exact Ends.pure nofun

/-- An insertion that needs no walk has failed or was the first; any other has a context for
writing and a row to start from. -/
theorem insertSetup_cases {idx : Index N E D} {rows : Shadow (Block N E D)} {key : RowKey}
    {vector : N} {Q : Written (Block N E D) → Prop}
    (hfail : ∀ o : Written (Block N E D), o.rc ≠ none → o.rows = rows → Q o)
    (hfirst : (insertRow idx rows key vector none []).Ends Q) (pick : ℕ) :
    (insertSetup idx rows pick key vector).Ends fun s => (∀ o, s = .inl o → Q o) ∧
      ∀ p, s = .inr p →
        p.1 = .init vector idx.insertL 1 true ∧ 0 < idx.insertL ∧ p.2 ∈ rows.rowids := by
  have hbad : ∀ o : Written (Block N E D), o.rc ≠ none → o.rows = rows →
      (pure (.inl o) : Calls Code (Written (Block N E D) ⊕ SearchCtx N D (Block N E D) × ℕ)).Ends
        fun s => (∀ o, s = .inl o → Q o) ∧ ∀ p, s = .inr p →
          p.1 = .init vector idx.insertL 1 true ∧ 0 < idx.insertL ∧ p.2 ∈ rows.rowids := by
    intro o hrc hrows
    refine Ends.pure ⟨fun o' ho' => ?_, nofun⟩
    cases ho'
    exact hfail o hrc hrows
  unfold insertSetup
  split_ifs
  · exact hbad _ nofun rfl
  · exact hbad _ nofun rfl
  refine (searchCtxInit_ends idx idx.insertL 1).bind fun ready hready => ?_
  split
  · exact hbad _ nofun rfl
  rename_i h
  refine Ends.of_true.bind fun vInsert _ => ?_
  split
  · exact hbad _ nofun rfl
  refine Ends.of_true.bind fun vCandidate _ => ?_
  split
  · exact hbad _ nofun rfl
  refine (selectRandomShadowRow_ends rows pick).bind fun r hr => ?_
  cases r with
  | error c => exact hbad _ nofun rfl
  | ok start =>
    cases start with
    | none =>
      refine hfirst.bind fun first hQ => Ends.pure ⟨fun o ho => ?_, nofun⟩
      cases ho
      exact hQ
    | some start =>
      refine Ends.pure ⟨nofun, fun p hp => ?_⟩
      cases hp
      exact ⟨rfl, hready (by simpa using h), hr start rfl⟩

theorem insertSetup_ends (pick : ℕ) (key : RowKey) (vector : N) :
    (insertSetup idx rows pick key vector).Ends (Ready rows) := by
  refine (insertSetup_cases (fun _ _ _ => trivial) Ends.of_true pick).mono ?_
  intro s hs p hp
  obtain ⟨hctx, hmax, hstart⟩ := hs.2 p hp
  exact ⟨vector, _, _, true, hctx, hmax, hstart⟩

/-! ### What comes after the walk -/

theorem putRows_strict (key : KeyShape) (message : Option String) (out rs : List ℕ) :
    (putRows key message out rs).Strict fun o => o.rc = none := by
  induction rs with
  | nil => exact Strict.pure _
  | cons r rs ih =>
    unfold putRows
    split
    · exact ih
    · exact Strict.ask ih fun c => Ends.pure nofun

theorem searchFinish_strict (key : KeyShape) (k : ℤ)
    (walked : SearchCtx N D (Block N E D) × Option String × Rc) :
    (searchFinish key k walked).Strict fun o => o.rc = none := by
  unfold searchFinish
  split
  · exact Strict.pure _
  · split
    · exact Strict.pure _
    · exact Strict.ask (putRows_strict _ _ _ _) fun c => Ends.pure nofun

theorem linkVisited_strict (rowid : ℕ) (vector : N) (visited : List (Node (Block N E D))) :
    (linkVisited idx rowid vector visited rows).Strict fun r => r.1 = none := by
  induction visited generalizing rows with
  | nil => exact Strict.pure _
  | cons v vs ih =>
    unfold linkVisited
    split
    · exact ih rows
    · exact Strict.ask (ih _) fun c => Ends.pure nofun

theorem blobOpen_strict (rows : Shadow B) (rowid : ℕ) :
    (blobOpen rows rowid).Strict fun rc => rc = none :=
  Strict.ask (Strict.pure _) fun _ => Ends.pure nofun

theorem blobSpotCreate_strict (rows : Shadow B) (rowid : ℕ) :
    (blobSpotCreate rows rowid).Strict fun r => ∃ spot, r = .ok spot := by
  refine Strict.ask (Strict.ask ?_ fun c => Ends.pure nofun)
    fun c => Ends.pure nofun
  refine (blobOpen_strict rows rowid).bind (fun rc => ?_) fun rc hbad => ?_
  · cases rc with
    | none | some => exact Strict.pure _
  · cases rc with
    | none => exact absurd rfl hbad
    | some e => exact Ends.pure nofun

theorem insertRow_strict (key : RowKey) (vector : N) (message : Option String)
    (visited : List (Node (Block N E D))) :
    (insertRow idx rows key vector message visited).Strict fun o => o.rc = none := by
  refine Strict.ask ?_ fun c => Ends.pure nofun
  dsimp only
  split
  · exact Strict.pure _
  rename_i r hr
  refine (blobSpotCreate_strict _ r).bind (fun created => ?_) fun created hbad => ?_
  · cases created with
    | error e => exact Strict.pure _
    | ok spot =>
      refine (linkVisited_strict idx rows r vector visited).bind (fun linked => ?_)
        fun linked hbad => ?_
      · split
        · exact Strict.pure _
        · exact Strict.ask (Strict.pure _) fun c => Ends.pure nofun
      · split
        · exact Ends.pure nofun
        · next h => exact absurd h hbad
  · cases created with
    | error e => exact Ends.pure nofun
    | ok spot => exact absurd ⟨spot, rfl⟩ hbad

/-! #### When no call fails -/

theorem putRows_clean (key : KeyShape) (message : Option String) (out rs : List ℕ) :
    (putRows key message out rs).clean.rc = none := by
  induction rs with
  | nil => rfl
  | cons r rs ih =>
    unfold putRows
    split <;> exact ih

theorem searchFinish_clean (key : KeyShape) (k : ℤ) (ctx : SearchCtx N D (Block N E D))
    (message : Option String) :
    (searchFinish key k (ctx, message, none)).clean.rc = none ↔
      ¬ outRowsMaxCells < (outRows k ctx).length * key.nCols := by
  unfold searchFinish
  split_ifs with h
  · exact iff_of_false nofun (not_not_intro h)
  · exact iff_of_true (putRows_clean key message _ _) h

theorem linkVisited_clean (rowid : ℕ) (vector : N) (visited : List (Node (Block N E D))) :
    (linkVisited idx rowid vector visited rows).clean.1 = none := by
  induction visited generalizing rows with
  | nil => rfl
  | cons v vs ih =>
    unfold linkVisited
    split
    · exact ih rows
    · exact ih _

theorem insertRow_clean (key : RowKey) (vector : N) (message : Option String)
    (visited : List (Node (Block N E D))) :
    (insertRow idx rows key vector message visited).clean.rc = none ↔
      key.newRowid rows ≠ none := by
  rw [insertRow, clean_bind]
  cases hr : key.newRowid rows with
  | none => exact iff_of_false nofun (not_not_intro rfl)
  | some r =>
    refine iff_of_true ?_ (Option.some_ne_none r)
    have hthere : ((rows.put r ⟨vector, []⟩).get r).isSome := by simp [RowTable.put]
    have hcreate := blobSpotCreate_clean (rows.put r ⟨vector, []⟩) r
    rw [if_pos hthere] at hcreate
    simp only [statement, clean_ask, clean_bind, hcreate, linkVisited_clean, clean_pure]

/-! ### The operations -/

/-- What `diskAnnSearch` owes its caller when the walk meets failures. -/
def SearchReports (idx : Index N E D) (rows : Shadow (Block N E D)) (pick : ℕ) (query : N)
    (k searchL : ℤ) (key : KeyShape) (env : ℕ → Option Code) : Prop :=
  Reports idx rows (searchSetup idx rows pick query k searchL) (searchFinish key k)
    (fun o => o.rc = none) env

/-- What `diskAnnInsert` owes its caller when the walk meets failures. -/
def InsertReports (idx : Index N E D) (rows : Shadow (Block N E D)) (pick : ℕ) (key : RowKey)
    (vector : N) (env : ℕ → Option Code) : Prop :=
  Reports idx rows (insertSetup idx rows pick key vector) (insertFinish idx rows key vector)
    (fun o => o.rc = none) env

/-- **A search or an insertion reports a failure of its walk only when something else fails
too.**  The walk of either is reported rightly exactly when none of its calls fails, or a call after
it does, or the output is too large or the key is taken. -/
theorem reports_iff (idx : Index N E D) (rows : Shadow (Block N E D)) (pick : ℕ)
    (env : ℕ → Option Code) :
    (∀ query k searchL key, SearchReports idx rows pick query k searchL key env ↔
      ∀ p, ((searchSetup idx rows pick query k searchL).run env 0).1 = .inr p →
        ¬ WalkFails idx rows (searchSetup idx rows pick query k searchL) env p ∨
        LaterFails idx rows (searchSetup idx rows pick query k searchL) (searchFinish key k) env p ∨
        outRowsMaxCells <
          (outRows k (walkRun idx rows (searchSetup idx rows pick query k searchL) env p).1.ctx).length
            * key.nCols) ∧
    ∀ key vector, InsertReports idx rows pick key vector env ↔
      ∀ p, ((insertSetup idx rows pick key vector).run env 0).1 = .inr p →
        ¬ WalkFails idx rows (insertSetup idx rows pick key vector) env p ∨
        LaterFails idx rows (insertSetup idx rows pick key vector)
          (insertFinish idx rows key vector) env p ∨
        key.newRowid rows = none := by
  constructor
  · intro query k searchL key
    rw [SearchReports, reports_iff_of_strict (searchSetup_ends idx rows pick query k searchL)
      (searchFinish_strict key k)]
    refine forall_congr' fun p => imp_congr_right fun _ => ?_
    rw [searchFinish_clean, not_not]
  · intro key vector
    have hstrict : ∀ walked, (insertFinish idx rows key vector walked).Strict
        fun o => o.rc = none := by
      rintro ⟨ctx, message, rc⟩
      cases rc with
      | none => exact insertRow_strict idx rows key vector message ctx.visitedList
      | some e => exact Calls.Strict.pure _
    rw [InsertReports, reports_iff_of_strict (insertSetup_ends idx rows pick key vector) hstrict]
    refine forall_congr' fun p => imp_congr_right fun _ => ?_
    have hclean := insertRow_clean idx rows key vector
      (walkRun idx rows (insertSetup idx rows pick key vector) env p).1.message
      (walkRun idx rows (insertSetup idx rows pick key vector) env p).1.ctx.visitedList
    rw [insertFinish, hclean, not_not]

/-- An index with one row whose block cannot be opened: the call that fails is the ninth. -/
def unopened : ℕ → Option Code := fun i => if i = 8 then some (.other 10) else none

/-- The search for the nearest row succeeds without the row, though the block of the start row
could not be opened, and an insertion leaves the new row without a neighbour. -/
theorem walk_failure_swallowed :
    ((diskAnnSearch line (RowTable.empty.put 1 ⟨0, []⟩) 0 3 1 0 ⟨true, 1⟩).run unopened 0).1 =
        ⟨none, some "vector index(search): failed to create new blob", []⟩ ∧
      (diskAnnSearch line (RowTable.empty.put 1 ⟨0, []⟩) 0 3 1 0 ⟨true, 1⟩).clean =
        ⟨none, none, [1]⟩ ∧
      ¬ SearchReports line (RowTable.empty.put 1 ⟨0, []⟩) 0 3 1 0 ⟨true, 1⟩ unopened ∧
      ¬ InsertReports line (RowTable.empty.put 1 ⟨0, []⟩) 0 (.rowidLike 2) 3 unopened := by
  refine ⟨by decide +kernel, by decide +kernel, fun h => ?_, fun h => ?_⟩
  · obtain ⟨hreport, -⟩ := h (.init 3 200 1 false, 1) rfl
    exact hreport ⟨8, by decide +kernel, by decide +kernel, by decide +kernel⟩ rfl
  · obtain ⟨hreport, -⟩ := h (.init 3 70 1 true, 1) rfl
    exact hreport ⟨8, by decide +kernel, by decide +kernel, by decide +kernel⟩ rfl

end SqlAnywhere.DiskAnn
