import Mathlib.Data.List.Perm.Subperm
import SqlAnywhere.DiskAnn.Walk

/-!
# Blob handles and the search context

What the pieces of the walk can be relied on for, whichever calls fail.

* `blobSpotReload_ends`, `blobSpotReload_clean` — a reload gives the block of the row it is for
* `loadCandidate_ends`, `loadCandidate_clean` — and so does loading a candidate
* `SearchCtx.Inv` — the counter counts, no row is a candidate twice or after it was visited
* `SearchCtx.Inv.insertCandidate`, `Inv.markVisited`, `Inv.deleteCandidate` — what keeps it
-/

namespace SqlAnywhere.DiskAnn

open List Calls

variable {N E D B : Type} {node : Node B} {α : Type} {l : List α} {i : ℕ}

/-! ### Buffers -/

theorem bufferInsert_perm {max i : ℕ} (a : α) (h : l.length < max) :
    (bufferInsert l max i a).Perm (a :: l) := by
  have hlen : (l.take i ++ a :: l.drop i).length ≤ max := by
    simp only [length_append, length_cons, length_take, length_drop]
    omega
  rw [bufferInsert, take_of_length_le hlen]
  refine perm_middle.trans ?_
  rw [take_append_drop]

theorem bufferInsert_full_perm {z a : α} (hi : i ≤ l.length) :
    (bufferInsert (l ++ [z]) (l.length + 1) i a).Perm (a :: l) := by
  have hlen : (l.take i ++ a :: l.drop i).length = l.length + 1 := by
    simp only [length_append, length_cons, length_take, length_drop]
    omega
  rw [bufferInsert, take_append_of_le_length hi, drop_append_of_le_length hi,
    ← cons_append, ← append_assoc, ← hlen, take_left]
  refine perm_middle.trans ?_
  rw [take_append_drop]

theorem modify_perm {c : α} (f : α → α) (hc : l[i]? = some c) :
    (l.modify i f).Perm (f c :: l.eraseIdx i) := by
  obtain ⟨hi, rfl⟩ := List.getElem?_eq_some_iff.1 hc
  rw [modify_eq_take_cons_drop hi, eraseIdx_eq_take_drop_succ]
  exact perm_middle

theorem eraseIdx_perm {c : α} (hc : l[i]? = some c) :
    l.Perm (c :: l.eraseIdx i) := by
  obtain ⟨hi, rfl⟩ := List.getElem?_eq_some_iff.1 hc
  exact (getElem_cons_eraseIdx_perm hi).symm

/-! ### Blob handles -/

/-- The buffer of a spot is the block of its row, and its handle is open on a row that is there
unless it was aborted. -/
structure BlobSpot.Good (rows : Shadow B) (spot : BlobSpot B) : Prop where
  buffer : ∀ b, spot.buffer = some b → rows.get spot.rowid = some b
  opened : spot.isAborted = false → (rows.get spot.rowid).isSome

theorem BlobSpot.Good.abort (rows : Shadow B) (spot : BlobSpot B) : spot.abort.Good rows :=
  ⟨fun _ h => absurd h (Option.some_ne_none _).symm, fun h => absurd h Bool.noConfusion⟩

/-- What an opened row is found to be. -/
def found (rows : Shadow B) (rowid : ℕ) : Except Fault B :=
  match rows.get rowid with
  | some b => .ok b
  | none => .error .rowNotFound

section Blobs

variable {rows : Shadow B} {spot : BlobSpot B} {rowid : ℕ} {reusable : Option (BlobSpot B)}

theorem blobOpen_ends :
    (blobOpen rows rowid).Ends fun rc =>
      (rc = none → (rows.get rowid).isSome) ∧
        (rc = some .rowNotFound → rows.get rowid = none) := by
  refine Ends.ask fun r => ?_
  cases r with
  | some c => exact Ends.pure ⟨nofun, nofun⟩
  | none =>
    refine Ends.pure ?_
    cases hb : rows.get rowid with
    | some b => exact ⟨fun _ => rfl, nofun⟩
    | none => exact ⟨nofun, fun _ => rfl⟩

theorem blobOpen_clean :
    (blobOpen rows rowid).clean = if (rows.get rowid).isSome then none else some .rowNotFound :=
  rfl

theorem blobSpotCreate_ends (rows : Shadow B) (rowid : ℕ) :
    (blobSpotCreate rows rowid).Ends fun r =>
      (∀ spot, r = .ok spot → spot.Good rows) ∧
        (r = .error .rowNotFound → rows.get rowid = none) := by
  refine Ends.ask fun r => ?_
  split
  · exact Ends.pure ⟨nofun, nofun⟩
  refine Ends.ask fun r => ?_
  split
  · exact Ends.pure ⟨nofun, nofun⟩
  refine blobOpen_ends.bind fun rc hrc => ?_
  cases rc with
  | none =>
    refine Ends.pure ⟨fun spot h => ?_, nofun⟩
    cases h
    exact ⟨nofun, fun _ => hrc.1 rfl⟩
  | some e =>
    exact Ends.pure ⟨nofun, fun h => hrc.2 (congrArg some (Except.error.inj h))⟩

theorem blobSpotCreate_clean (rows : Shadow B) (rowid : ℕ) :
    (blobSpotCreate rows rowid).clean =
      if (rows.get rowid).isSome then .ok ⟨rowid, none, false⟩ else .error .rowNotFound := by
  cases hb : (rows.get rowid).isSome <;>
    simp [blobSpotCreate, blobOpen_clean, hb]

/-- What a reload of `rowid` ends with. -/
structure Reloaded (rows : Shadow B) (rowid : ℕ) (r : BlobSpot B × Except Fault B) : Prop where
  good : r.1.Good rows
  block : ∀ b, r.2 = .ok b → rows.get rowid = some b ∧ r.1.buffer = some b
  moved : ∀ b, r.2 = .ok b → r.1.rowid = rowid
  missing : r.2 = .error .rowNotFound → rows.get rowid = none

theorem readBlock_ends (rows : Shadow B) (spot : BlobSpot B) :
    (readBlock rows spot).Ends (Reloaded rows spot.rowid) := by
  refine Ends.ask fun r => ?_
  cases r with
  | some c => exact Ends.pure ⟨.abort rows spot, nofun, nofun, nofun⟩
  | none =>
    cases hb : rows.get spot.rowid with
    | none => exact Ends.pure ⟨.abort rows spot, nofun, nofun, nofun⟩
    | some b =>
      refine Ends.pure ⟨⟨fun b' h => ?_, fun _ => ?_⟩, fun b' h => ?_, fun _ _ => rfl, nofun⟩
      · exact hb.trans h
      · exact Option.isSome_of_eq_some hb
      · cases h
        exact ⟨hb, rfl⟩

theorem openAborted_ends (h : spot.Good rows) :
    (openAborted rows spot rowid).Ends fun r =>
      (r.2 = none → (rows.get r.1.rowid).isSome) ∧
        (r.2 = some .rowNotFound → rows.get rowid = none) := by
  unfold openAborted
  split
  · refine blobOpen_ends.bind fun rc hrc => ?_
    exact Ends.pure hrc
  · next ha => exact Ends.pure ⟨fun _ => h.opened (by simpa using ha), nofun⟩

theorem reopen_ends :
    (reopen rows spot rowid).Ends fun r =>
      (r.2 = none → r.1.rowid = rowid) ∧
        (r.2 = some .rowNotFound → rows.get rowid = none) := by
  unfold reopen
  split
  · next hr => exact Ends.pure ⟨fun _ => hr, nofun⟩
  · refine blobOpen_ends.bind fun rc hrc => ?_
    refine Ends.pure ⟨fun hok => ?_, hrc.2⟩
    rw [if_pos hok]

/-- **A reload gives the block of the row**, or says that the row is missing, or fails. -/
theorem blobSpotReload_ends (h : spot.Good rows) (rowid : ℕ) :
    (blobSpotReload rows spot rowid).Ends (Reloaded rows rowid) := by
  unfold blobSpotReload
  split
  · next b hb =>
    split_ifs at hb with hr
    subst hr
    refine Ends.pure ⟨h, fun b' h' => ?_, fun _ _ => rfl, nofun⟩
    cases h'
    exact ⟨h.buffer b hb, hb⟩
  · refine (openAborted_ends h).bind fun opened hopened => ?_
    split
    · next e he =>
      refine Ends.pure ⟨.abort rows opened.1, nofun, nofun, fun hnot => hopened.2 ?_⟩
      rw [he, Except.error.inj hnot]
    · refine reopen_ends.bind fun moved hmoved => ?_
      split
      · next e he =>
        refine Ends.pure ⟨.abort rows moved.1, nofun, nofun, fun hnot => hmoved.2 ?_⟩
        rw [he, Except.error.inj hnot]
      · next hok =>
        have hread := readBlock_ends rows moved.1
        rwa [hmoved.1 hok] at hread

theorem blobSpotReload_clean (h : spot.Good rows) (rowid : ℕ) :
    (blobSpotReload rows spot rowid).clean.2 = found rows rowid := by
  unfold blobSpotReload
  split
  · next b hb =>
    split_ifs at hb with hr
    subst hr
    rw [clean_pure, found, h.buffer b hb]
  · cases hb : rows.get rowid with
    | none =>
      -- an open handle is not on a missing row, so it is moved there in vain
      cases ha : spot.isAborted with
      | true => simp [openAborted, blobOpen_clean, found, ha, hb]
      | false =>
        have hr : spot.rowid ≠ rowid := by
          rintro rfl
          have := h.opened ha
          simp [hb] at this
        simp [openAborted, reopen, blobOpen_clean, found, ha, hb, hr]
    | some b =>
      by_cases hr : spot.rowid = rowid <;> cases ha : spot.isAborted <;>
        simp [openAborted, reopen, readBlock, blobOpen_clean, found, ha, hb, hr]

/-- What loading a candidate ends with. -/
structure Loaded.Spec (rows : Shadow B) (reusable : Option (BlobSpot B)) (node : Node B)
    (r : Loaded B) : Prop where
  rowid : r.node.rowid = node.rowid
  reused : r.reusable.isSome = reusable.isSome
  spot : ∀ spot ∈ r.reusable, spot.Good rows
  block : ∀ b, r.block = .ok b → rows.get node.rowid = some b ∧
    (reusable = none → r.node.blob.bind BlobSpot.buffer = some b)
  missing : r.block = .error .rowNotFound → rows.get node.rowid = none

theorem loadCandidate_ends
    (hreusable : ∀ spot ∈ reusable, spot.Good rows) (hnode : ∀ spot ∈ node.blob, spot.Good rows) :
    (loadCandidate rows reusable node).Ends (Loaded.Spec rows reusable node) := by
  unfold loadCandidate
  split
  · next spot =>
    refine (blobSpotReload_ends (hreusable spot rfl) node.rowid).bind fun r hr => ?_
    refine Ends.pure ⟨rfl, rfl, ?_, fun b hb => ⟨(hr.block b hb).1, nofun⟩, hr.missing⟩
    rintro _ ⟨⟩
    exact hr.good
  · split
    · next spot hspot =>
      refine (blobSpotReload_ends (hnode spot hspot) node.rowid).bind fun r hr => ?_
      exact Ends.pure ⟨rfl, rfl, nofun,
        fun b hb => ⟨(hr.block b hb).1, fun _ => (hr.block b hb).2⟩, hr.missing⟩
    · refine (blobSpotCreate_ends rows node.rowid).bind fun created hcreated => ?_
      cases created with
      | error rc =>
        exact Ends.pure ⟨rfl, rfl, nofun, nofun,
          fun h => hcreated.2 (congrArg Except.error (Except.error.inj h))⟩
      | ok spot =>
        refine (blobSpotReload_ends (hcreated.1 spot rfl) node.rowid).bind fun r hr => ?_
        exact Ends.pure ⟨rfl, rfl, nofun,
          fun b hb => ⟨(hr.block b hb).1, fun _ => (hr.block b hb).2⟩, hr.missing⟩

theorem loadCandidate_clean
    (hreusable : ∀ spot ∈ reusable, spot.Good rows) (hnode : ∀ spot ∈ node.blob, spot.Good rows) :
    (loadCandidate rows reusable node).clean.block = found rows node.rowid := by
  unfold loadCandidate
  split
  · next spot =>
    rw [clean_bind, clean_pure]
    exact blobSpotReload_clean (hreusable spot rfl) node.rowid
  · split
    · next spot hspot =>
      rw [clean_bind, clean_pure]
      exact blobSpotReload_clean (hnode spot hspot) node.rowid
    · have hgood := (blobSpotCreate_ends rows node.rowid).clean.1
      rw [clean_bind, blobSpotCreate_clean]
      rw [blobSpotCreate_clean] at hgood
      cases hb : rows.get node.rowid with
      | none => simp [found, hb]
      | some b =>
        simp only [hb, Option.isSome_some, if_true] at hgood ⊢
        rw [clean_bind, clean_pure]
        exact blobSpotReload_clean (hgood _ rfl) node.rowid

end Blobs

/-! ### The context -/

namespace SearchCtx

/-- The candidates that wait to be visited. -/
def waiting (cands : List (Node B × D)) : ℕ := cands.countP fun c => !c.1.visited

theorem waiting_perm {l l' : List (Node B × D)} (h : l.Perm l') : waiting l = waiting l' :=
  h.countP_eq _

theorem waiting_cons (c : Node B × D) (l : List (Node B × D)) :
    waiting (c :: l) = waiting l + if c.1.visited then 0 else 1 := by
  rw [waiting, countP_cons, waiting]
  cases c.1.visited <;> rfl

/-- The rows that were visited. -/
def visitedRows (ctx : SearchCtx N D B) : List ℕ := ctx.visitedList.map Node.rowid

/-- What the search context keeps to during a walk. -/
structure Inv (rows : Shadow B) (ctx : SearchCtx N D B) : Prop where
  counted : ctx.nUnvisited = waiting ctx.candidates
  distinct : (ctx.candidates.map fun c => c.1.rowid).Nodup
  fresh : ∀ c ∈ ctx.candidates, c.1.visited = false → c.1.rowid ∉ ctx.visitedRows
  visitedOnce : ctx.visitedRows.Nodup
  visitedThere : ∀ r ∈ ctx.visitedRows, r ∈ rows.rowids
  bound : ctx.candidates.length ≤ ctx.maxCandidates
  blobs : ∀ c ∈ ctx.candidates, c.1.visited = false → ∀ spot ∈ c.1.blob, spot.Good rows
  loaded : ctx.writable = true → ∀ v ∈ ctx.visitedList,
    v.blob.bind BlobSpot.buffer = rows.get v.rowid

variable {rows : Shadow B} {ctx : SearchCtx N D B} {c : Node B × D}

theorem init_inv {query : N} {max top : ℕ} {writable : Bool} :
    (init query max top writable : SearchCtx N D B).Inv rows :=
  ⟨rfl, nodup_nil, nofun, nodup_nil, nofun, Nat.zero_le _, nofun, nofun⟩

/-- The rounds still to come: each visits a row not visited before, or drops a candidate. -/
def remaining (rows : Shadow B) (ctx : SearchCtx N D B) : ℕ :=
  (rows.rowids.length - ctx.visitedList.length) * (ctx.maxCandidates + 1) + ctx.nUnvisited

/-- A visited row more leaves fewer rounds, however many candidates came with it. -/
theorem remaining_lt {ctx' : SearchCtx N D B}
    (hvisited : ctx'.visitedList.length = ctx.visitedList.length + 1)
    (hroom : ctx.visitedList.length < rows.rowids.length)
    (hmax : ctx'.maxCandidates = ctx.maxCandidates) (hle : ctx'.nUnvisited ≤ ctx'.maxCandidates) :
    ctx'.remaining rows < ctx.remaining rows := by
  obtain ⟨k, hk⟩ : ∃ k, rows.rowids.length - ctx.visitedList.length = k + 1 :=
    ⟨rows.rowids.length - ctx.visitedList.length - 1, by omega⟩
  have hk' : rows.rowids.length - (ctx.visitedList.length + 1) = k := by omega
  rw [remaining, remaining, hvisited, hk', hk, hmax, Nat.succ_mul]
  omega

variable (h : ctx.Inv rows)
include h

theorem Inv.nUnvisited_pos (hc : c ∈ ctx.candidates)
    (hv : c.1.visited = false) : 0 < ctx.nUnvisited := by
  rw [h.counted, waiting, countP_pos_iff]
  exact ⟨c, hc, by rw [hv]; rfl⟩

theorem Inv.nUnvisited_le : ctx.nUnvisited ≤ ctx.maxCandidates := by
  rw [h.counted]
  exact Nat.le_trans countP_le_length h.bound

theorem Inv.remaining_le : ctx.remaining rows ≤ rounds rows ctx := by
  have hle := h.nUnvisited_le
  have hmul : (rows.rowids.length - ctx.visitedList.length) * (ctx.maxCandidates + 1) ≤
      rows.rowids.length * (ctx.maxCandidates + 1) := Nat.mul_le_mul_right _ (Nat.sub_le _ _)
  rw [remaining, rounds, Nat.succ_mul]
  omega

theorem Inv.visited_lt {r : ℕ} (hr : r ∈ rows.rowids)
    (hnot : r ∉ ctx.visitedRows) : ctx.visitedList.length < rows.rowids.length := by
  have hsub : (r :: ctx.visitedRows).Subperm rows.rowids := by
    refine (nodup_cons.2 ⟨hnot, h.visitedOnce⟩).subperm ?_
    exact forall_mem_cons.2 ⟨hr, h.visitedThere⟩
  have hlen := hsub.length_le
  rw [length_cons, visitedRows, length_map] at hlen
  exact hlen

omit h

theorem closest_some (h : ctx.closest = some i) :
    ∃ c, ctx.candidates[i]? = some c ∧ c.1.visited = false := by
  obtain ⟨hi, hv, -⟩ := findIdx?_eq_some_iff_getElem.1 h
  exact ⟨ctx.candidates[i], getElem?_eq_getElem hi, by simpa using hv⟩

include h

/-- While the counter is positive there is a closest candidate. -/
theorem Inv.exists_closest (hpos : 0 < ctx.nUnvisited) :
    ∃ i c, ctx.closest = some i ∧ ctx.candidates[i]? = some c ∧ c.1.visited = false := by
  rw [h.counted, waiting, countP_pos_iff] at hpos
  obtain ⟨c, hc, hv⟩ := hpos
  cases hi : ctx.closest with
  | none =>
    have := findIdx?_eq_none_iff.1 hi c hc
    simp [hv] at this
  | some i =>
    obtain ⟨c, hc⟩ := closest_some hi
    exact ⟨i, c, rfl, hc⟩

theorem Inv.all_visited (hzero : ctx.nUnvisited = 0) :
    ∀ c ∈ ctx.candidates, c.1.visited = true := by
  rw [h.counted, waiting, countP_eq_zero] at hzero
  intro c hc
  simpa using hzero c hc

/-! #### A new candidate -/

theorem Inv.insert_kept (hi : i < ctx.maxCandidates) (d : D) :
    ∃ kept, (ctx.insertCandidate i node d).candidates.Perm ((node, d) :: kept) ∧
      kept.Sublist ctx.candidates ∧ kept.length < ctx.maxCandidates ∧
      (ctx.insertCandidate i node d).nUnvisited = waiting kept + 1 := by
  rcases Nat.lt_or_ge ctx.candidates.length ctx.maxCandidates with hlt | hge
  · refine ⟨ctx.candidates, bufferInsert_perm _ hlt, List.Sublist.refl _, hlt, ?_⟩
    have hlast : ctx.last = none := if_neg (Nat.ne_of_lt hlt)
    simp [insertCandidate, hlast, h.counted]
  · have hfull : ctx.candidates.length = ctx.maxCandidates := Nat.le_antisymm h.bound hge
    rcases eq_nil_or_concat ctx.candidates with hnil | ⟨l, z, hl⟩
    · rw [hnil, length_nil] at hfull
      omega
    · rw [concat_eq_append] at hl
      have hmax : ctx.maxCandidates = l.length + 1 := by
        rw [← hfull, hl, length_append, length_singleton]
      have hlast : ctx.last = some z := by
        rw [last, if_pos hfull, hl, getLast?_append, getLast?_singleton, Option.some_or]
      have hcount : ctx.nUnvisited = waiting l + if z.1.visited then 0 else 1 := by
        rw [h.counted, hl, waiting_perm (perm_append_singleton z l), waiting_cons]
      refine ⟨l, ?_, ?_, by omega, ?_⟩
      · show (bufferInsert ctx.candidates ctx.maxCandidates i (node, d)).Perm _
        rw [hl, hmax]
        exact bufferInsert_full_perm (by omega)
      · rw [hl]
        exact sublist_append_left l [z]
      · simp only [insertCandidate, hlast, Option.any_some, hcount]
        cases z.1.visited <;> simp

theorem Inv.insertCandidate (d : D)
    (hi : i < ctx.maxCandidates) (hnode : node.visited = false)
    (hcand : ∀ c ∈ ctx.candidates, c.1.rowid ≠ node.rowid) (hnot : node.rowid ∉ ctx.visitedRows)
    (hblob : ∀ spot ∈ node.blob, spot.Good rows) : (ctx.insertCandidate i node d).Inv rows := by
  obtain ⟨kept, hperm, hsub, hlen, hcount⟩ := h.insert_kept hi d
  have hmem : ∀ c ∈ (ctx.insertCandidate i node d).candidates,
      c = (node, d) ∨ c ∈ ctx.candidates := by
    intro c hc
    rcases mem_cons.1 (hperm.mem_iff.1 hc) with rfl | hc
    · exact Or.inl rfl
    · exact Or.inr (hsub.subset hc)
  constructor
  · rw [hcount, waiting_perm hperm, waiting_cons, hnode]
    rfl
  · rw [(hperm.map _).nodup_iff, map_cons, nodup_cons]
    refine ⟨fun hin => ?_, h.distinct.sublist (hsub.map _)⟩
    obtain ⟨c, hc, hr⟩ := mem_map.1 hin
    exact hcand c (hsub.subset hc) hr
  · intro c hc hv
    rcases hmem c hc with rfl | hc
    · exact hnot
    · exact h.fresh c hc hv
  · exact h.visitedOnce
  · exact h.visitedThere
  · rw [hperm.length_eq]
    exact hlen
  · intro c hc hv
    rcases hmem c hc with rfl | hc
    · exact hblob
    · exact h.blobs c hc hv
  · exact h.loaded

theorem shouldAddCandidate_lt {idx : Index N E D} {d : D}
    (hi : ctx.shouldAddCandidate idx d = some i) : i < ctx.maxCandidates := by
  rw [shouldAddCandidate] at hi
  cases hf : ctx.candidates.findIdx? fun c => idx.lt d c.2 with
  | some j =>
    rw [hf] at hi
    cases hi
    obtain ⟨hj, -⟩ := findIdx?_eq_some_iff_getElem.1 hf
    exact Nat.lt_of_lt_of_le hj h.bound
  | none =>
    rw [hf] at hi
    have hi : (if ctx.candidates.length < ctx.maxCandidates then some ctx.candidates.length
        else none) = some i := hi
    split_ifs at hi with hlt
    cases hi
    exact hlt

/-! #### A visited candidate and a missing one -/

theorem Inv.markVisited (idx : Index N E D) (hc : ctx.candidates[i]? = some c)
    (hv : c.1.visited = false) (hrow : node.rowid = c.1.rowid) (hthere : c.1.rowid ∈ rows.rowids)
    (hblock : ctx.writable = true → node.blob.bind BlobSpot.buffer = rows.get c.1.rowid)
    (d : D) : (ctx.markVisited idx i node d).Inv rows := by
  have hperm := eraseIdx_perm hc
  have hperm' : (ctx.markVisited idx i node d).candidates.Perm
      (({ node with visited := true }, c.2) :: ctx.candidates.eraseIdx i) := modify_perm _ hc
  have hcmem : c ∈ ctx.candidates := mem_of_getElem? hc
  have hnot : c.1.rowid ∉ ctx.visitedRows := h.fresh c hcmem hv
  have hrows : (ctx.markVisited idx i node d).visitedRows = c.1.rowid :: ctx.visitedRows :=
    congrArg (· :: ctx.visitedRows) hrow
  have hnodup := (hperm.map fun c => c.1.rowid).nodup_iff.1 h.distinct
  rw [map_cons] at hnodup
  have hmem : ∀ a ∈ (ctx.markVisited idx i node d).candidates, a.1.visited = false →
      a ∈ ctx.candidates ∧ a.1.rowid ≠ c.1.rowid := by
    intro a ha hav
    rcases mem_cons.1 (hperm'.mem_iff.1 ha) with rfl | ha
    · cases hav
    · exact ⟨(eraseIdx_sublist _ _).subset ha,
        fun hr => (nodup_cons.1 hnodup).1 (hr ▸ mem_map_of_mem ha)⟩
  constructor
  · show ctx.nUnvisited - 1 = waiting (ctx.markVisited idx i node d).candidates
    rw [waiting_perm hperm', waiting_cons, h.counted, waiting_perm hperm, waiting_cons, hv]
    rfl
  · rw [(hperm'.map _).nodup_iff, map_cons]
    rwa [← hrow] at hnodup
  · intro a ha hav
    obtain ⟨hain, har⟩ := hmem a ha hav
    rw [hrows, mem_cons, not_or]
    exact ⟨har, h.fresh a hain hav⟩
  · rw [hrows, nodup_cons]
    exact ⟨hnot, h.visitedOnce⟩
  · rw [hrows]
    exact forall_mem_cons.2 ⟨hthere, h.visitedThere⟩
  · show (ctx.candidates.modify i _).length ≤ ctx.maxCandidates
    rw [length_modify]
    exact h.bound
  · intro a ha hav
    exact h.blobs a (hmem a ha hav).1 hav
  · intro hw
    exact forall_mem_cons.2 ⟨(hblock hw).trans (congrArg rows.get hrow.symm), h.loaded hw⟩

theorem Inv.deleteCandidate (hc : ctx.candidates[i]? = some c)
    (hv : c.1.visited = false) : (ctx.deleteCandidate i).Inv rows := by
  have hperm := eraseIdx_perm hc
  have hsub := eraseIdx_sublist ctx.candidates i
  constructor
  · show ctx.nUnvisited - 1 = waiting (ctx.candidates.eraseIdx i)
    rw [h.counted, waiting_perm hperm, waiting_cons, hv]
    rfl
  · exact h.distinct.sublist (hsub.map _)
  · exact fun c hc => h.fresh c (hsub.subset hc)
  · exact h.visitedOnce
  · exact h.visitedThere
  · exact Nat.le_trans hsub.length_le h.bound
  · exact fun c hc => h.blobs c (hsub.subset hc)
  · exact h.loaded

end SearchCtx

end SqlAnywhere.DiskAnn
