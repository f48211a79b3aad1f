import Mathlib.Algebra.Ring.Nat
import SqlAnywhere.DiskAnn.Walk

/-!
# Search, insertion and deletion in a DiskANN index

* `diskAnnSearch`, `diskAnnInsert` — set up a search context, walk, and use what the walk found
* `diskAnnDelete` — visit the neighbours of a row and remove the row
-/

namespace SqlAnywhere.DiskAnn

variable {N E D B : Type}

/-! ### Before a walk -/

/-- How a call that is answered in one statement of SQL ends. -/
def statement : Calls Code (Option Code) := Calls.ask

/-- `diskAnnSelectRandomShadowRow`: `pick` is the random number, the inner `none` says that the
table is empty. -/
def selectRandomShadowRow (rows : Shadow B) (pick : ℕ) : Calls Code (Except Code (Option ℕ)) := do
  match ← statement with
  | some c => pure (.error c)
  | none => pure (.ok rows.rowids[pick % max rows.rowids.length 1]?)

/-- `initVectorPair`: memory is needed only when the types differ. -/
def initVectorPair (idx : Index N E D) : Calls Code Bool :=
  if idx.compressed then do
    let pair ← Calls.ask
    pure pair.isNone
  else pure true

/-- The allocations of `diskAnnSearchCtxInit`; nothing is allocated for an empty array. -/
def searchCtxInit (idx : Index N E D) (maxCandidates topCandidates : ℕ) : Calls Code Bool := do
  let pair ← initVectorPair idx
  if pair then do
    let distances ← Calls.ask
    let candidates ← Calls.ask
    let topDistances ← Calls.ask
    let top ← Calls.ask
    pure (distances.isNone && candidates.isNone && topDistances.isNone && top.isNone &&
      decide (0 < maxCandidates) && decide (0 < topCandidates))
  else pure false

/-- An operation that may walk: a part before the walk, which may end it, and a part after. -/
def withWalk {O : Type} (idx : Index N E D) (rows : Shadow (Block N E D))
    (setup : Calls Code (O ⊕ SearchCtx N D (Block N E D) × ℕ))
    (finish : SearchCtx N D (Block N E D) × Option String × Rc → Calls Code O) : Calls Code O := do
  match ← setup with
  | .inl o => pure o
  | .inr (ctx, start) => do
    let walked ← diskAnnSearchInternal idx rows ctx start
    finish walked

/-! ### Search -/

/-- A `VectorIdxKey`, as far as it shapes the output. -/
structure KeyShape where
  rowidLike : Bool
  nCols : ℕ

/-- What `diskAnnSearch` leaves: the rows are given by the rowids of their nodes. -/
structure Found where
  rc : Rc
  message : Option String
  rows : List ℕ
  deriving DecidableEq

/-- `SQLITE_ERROR` with a message. -/
def Found.error (message : String) : Found := ⟨some (.failed .error), some message, []⟩

/-- `SQLITE_NOMEM` with a message. -/
def Found.nomem (message : String) : Found := ⟨some (.failed .nomem), some message, []⟩

/-- The size of the candidate set: fewer than `k` candidates would return fewer than `k` rows. -/
def searchCandidates (idx : Index N E D) (k searchL : ℤ) : ℕ :=
  max (if searchL ≤ 0 then idx.searchL else searchL.toNat) k.toNat

/-- `diskAnnSearch` up to the walk. -/
def searchSetup (idx : Index N E D) (rows : Shadow (Block N E D)) (pick : ℕ) (query : N)
    (k searchL : ℤ) : Calls Code (Found ⊕ SearchCtx N D (Block N E D) × ℕ) :=
  if k < 0 then
    pure (.inl (.error "vector index(search): k must be a non-negative integer"))
  else if idx.dims query ≠ idx.vectorDims then
    pure (.inl (.error ("vector index(search): dimensions are different: " ++
      toString (idx.dims query) ++ " != " ++ toString idx.vectorDims)))
  else if idx.type query ≠ idx.nodeVectorType then
    pure (.inl (.error ("vector index(search): vector type differs from column type: " ++
      toString (idx.type query) ++ " != " ++ toString idx.nodeVectorType)))
  else do
    match ← selectRandomShadowRow rows pick with
    | .error c =>
      pure (.inl ⟨some (.failed c),
        some "vector index(search): failed to select start node for search", []⟩)
    | .ok none => pure (.inl ⟨none, none, []⟩)
    | .ok (some start) => do
      let ready ← searchCtxInit idx (searchCandidates idx k searchL) k.toNat
      if ready then
        pure (.inr (.init query (searchCandidates idx k searchL) k.toNat false, start))
      else
        pure (.inl (.nomem "vector index(search): failed to initialize search context"))

/-- `VECTOR_OUT_ROWS_MAX_CELLS`. -/
def outRowsMaxCells : ℕ := 2 ^ 30

/-- The loop that puts out the rows: an integer key is the rowid, any other has to be looked up. -/
def putRows (key : KeyShape) (message : Option String) (out : List ℕ) :
    List ℕ → Calls Code Found
  | [] => pure ⟨none, message, out⟩
  | _ :: rs =>
    if key.rowidLike then putRows key message out rs
    else do
      match ← statement with
      | none => putRows key message out rs
      | some c =>
        pure ⟨some (.failed c),
          some "vector index(search): failed to put result in the output row", []⟩

/-- The rows to put out, the best ones the walk met. -/
def outRows (k : ℤ) (ctx : SearchCtx N D B) : List ℕ :=
  (ctx.top.take k.toNat).map fun c => c.1.rowid

/-- `diskAnnSearch` after the walk. -/
def searchFinish (key : KeyShape) (k : ℤ)
    (walked : SearchCtx N D (Block N E D) × Option String × Rc) : Calls Code Found :=
  match walked.2.2 with
  | some e => pure ⟨some e, walked.2.1, []⟩
  | none =>
    if outRowsMaxCells < (outRows k walked.1).length * key.nCols then
      pure (.nomem "vector index(search): failed to allocate output rows")
    else do
      match ← Calls.ask with
      | some _ => pure (.nomem "vector index(search): failed to allocate output rows")
      | none => putRows key walked.2.1 (outRows k walked.1) (outRows k walked.1)

def diskAnnSearch (idx : Index N E D) (rows : Shadow (Block N E D)) (pick : ℕ) (query : N)
    (k searchL : ℤ) (key : KeyShape) : Calls Code Found :=
  withWalk idx rows (searchSetup idx rows pick query k searchL) (searchFinish key k)

/-! ### Insertion -/

/-- The key of a row: an integer that is the rowid as well, or another key, for which SQLite picks
the rowid and a unique index tells whether it is taken. -/
inductive RowKey
  | rowidLike (rowid : ℕ)
  | other (rowid : ℕ) (taken : Bool)

/-- The rowid that a new row with this key gets, if it gets one. -/
def RowKey.newRowid (rows : Shadow B) : RowKey → Option ℕ
  | rowidLike r => if r ∈ rows.rowids then none else some r
  | other r taken => if taken || decide (r ∈ rows.rowids) then none else some r

/-- What an operation that writes leaves.  SQLite takes back what a failed one has written. -/
structure Written (B : Type) where
  rc : Rc
  message : Option String
  rows : Shadow B

/-- The block in the blob of a node. -/
def Node.block (node : Node B) : Option B := node.blob.bind BlobSpot.buffer

/-- The first pass: the visited rows as neighbours of the new one. -/
def linkNew (idx : Index N E D) (b : Block N E D) :
    List (Node (Block N E D)) → Block N E D
  | [] => b
  | v :: vs =>
    match v.block with
    | none => linkNew idx b vs
    | some vb => linkNew idx ((addEdge idx b v.rowid vb.vector).getD b) vs

/-- The second pass: the new row as a neighbour of the visited ones. -/
def linkVisited (idx : Index N E D) (rowid : ℕ) (vector : N) :
    List (Node (Block N E D)) → Shadow (Block N E D) → Calls Code (Rc × Shadow (Block N E D))
  | [], rows => pure (none, rows)
  | v :: vs, rows =>
    match v.block.bind fun vb => addEdge idx vb rowid vector with
    | none => linkVisited idx rowid vector vs rows
    | some vb => do
      -- `blobSpotFlush`
      match ← Calls.ask with
      | some c => pure (some (.failed c), rows)
      | none => linkVisited idx rowid vector vs (rows.put v.rowid vb)

/-- `diskAnnInsert` after the walk; for the first row nothing was visited. -/
def insertRow (idx : Index N E D) (rows : Shadow (Block N E D)) (key : RowKey) (vector : N)
    (message : Option String) (visited : List (Node (Block N E D))) :
    Calls Code (Written (Block N E D)) := do
  match ← statement with
  | some c =>
    pure ⟨some (.failed c), some "vector index(insert): failed to insert shadow row", rows⟩
  | none =>
    match key.newRowid rows with
    | none =>
      pure ⟨some (.failed .error), some "vector index(insert): failed to insert shadow row", rows⟩
    | some r => do
      match ← blobSpotCreate (rows.put r ⟨vector, []⟩) r with
      | .error e =>
        pure ⟨some e, some "vector index(insert): failed to read blob for shadow row", rows⟩
      | .ok _ => do
        let b := linkNew idx ⟨vector, []⟩ visited
        let linked ← linkVisited idx r vector visited rows
        match linked.1 with
        | some e => pure ⟨some e, some "vector index(insert): failed to flush blob", rows⟩
        | none => do
          match ← Calls.ask with
          | some c =>
            pure ⟨some (.failed c), some "vector index(insert): failed to flush blob", rows⟩
          | none => pure ⟨none, message, linked.2.put r b⟩

/-- `SQLITE_ERROR` with a message. -/
def Written.error (rows : Shadow B) (message : String) : Written B :=
  ⟨some (.failed .error), some message, rows⟩

/-- `SQLITE_NOMEM` with a message. -/
def Written.nomem (rows : Shadow B) (message : String) : Written B :=
  ⟨some (.failed .nomem), some message, rows⟩

/-- `diskAnnInsert` up to the walk, which the first row of an index does without. -/
def insertSetup (idx : Index N E D) (rows : Shadow (Block N E D)) (pick : ℕ) (key : RowKey)
    (vector : N) :
    Calls Code (Written (Block N E D) ⊕ SearchCtx N D (Block N E D) × ℕ) :=
  if idx.dims vector ≠ idx.vectorDims then
    pure (.inl (.error rows ("vector index(insert): dimensions are different: " ++
      toString (idx.dims vector) ++ " != " ++ toString idx.vectorDims)))
  else if idx.type vector ≠ idx.nodeVectorType then
    pure (.inl (.error rows ("vector index(insert): vector type differs from column type: " ++
      toString (idx.type vector) ++ " != " ++ toString idx.nodeVectorType)))
  else do
    let ready ← searchCtxInit idx idx.insertL 1
    if !ready then
      pure (.inl (.nomem rows "vector index(insert): failed to initialize search context"))
    else do
      let vInsert ← initVectorPair idx
      if !vInsert then
        pure (.inl (.nomem rows "vector index(insert): unable to allocate mem for node VectorPair"))
      else do
        let vCandidate ← initVectorPair idx
        if !vCandidate then
          pure (.inl (.nomem rows
            "vector index(insert): unable to allocate mem for candidate VectorPair"))
        else do
          match ← selectRandomShadowRow rows pick with
          | .error _ =>
            pure (.inl (.error rows "vector index(insert): failed to select start node for search"))
          | .ok none => do
            let first ← insertRow idx rows key vector none []
            pure (.inl first)
          | .ok (some start) => pure (.inr (.init vector idx.insertL 1 true, start))

/-- `diskAnnInsert` after the walk. -/
def insertFinish (idx : Index N E D) (rows : Shadow (Block N E D)) (key : RowKey) (vector : N)
    (walked : SearchCtx N D (Block N E D) × Option String × Rc) :
    Calls Code (Written (Block N E D)) :=
  match walked.2.2 with
  | some e => pure ⟨some e, walked.2.1, rows⟩
  | none => insertRow idx rows key vector walked.2.1 walked.1.visitedList

def diskAnnInsert (idx : Index N E D) (rows : Shadow (Block N E D)) (pick : ℕ) (key : RowKey)
    (vector : N) : Calls Code (Written (Block N E D)) :=
  withWalk idx rows (insertSetup idx rows pick key vector) (insertFinish idx rows key vector)

/-! ### Deletion -/

/-- The loop over the neighbours of the row to delete.  It looks for the neighbour itself in the
neighbour's own block. -/
def unlink (edges : List (Edge E D)) (spot : BlobSpot (Block N E D))
    (rows : Shadow (Block N E D)) : Calls Code (Option (Fault × String) × Shadow (Block N E D)) :=
  match edges with
  | [] => pure (none, rows)
  | e :: es => do
    let r ← blobSpotReload rows spot e.rowid
    match r.2 with
    | .error .rowNotFound => unlink es r.1 rows
    | .error fault =>
      pure (some (fault, "vector index(delete): failed to reload blob for edge row: " ++
        toString fault.code), rows)
    | .ok b =>
      match edgeFindIdx b.edges e.rowid with
      | none => unlink es r.1 rows
      | some i => do
        let b' := { b with edges := deleteEdge b.edges i }
        match ← Calls.ask with
        | some c =>
          pure (some (.failed c, "vector index(delete): failed to flush blob for edge row"), rows)
        | none => unlink es { r.1 with buffer := some b' } (rows.put e.rowid b')

/-- `diskAnnDelete`, for the node `rowid`. -/
def deleteNode (rows : Shadow (Block N E D)) (rowid : ℕ) :
    Calls Code (Written (Block N E D)) := do
  match ← blobSpotCreate rows rowid with
  | .error .rowNotFound => pure ⟨none, none, rows⟩
  | .error e =>
    pure ⟨some e, some "vector index(delete): failed to create blob for node row", rows⟩
  | .ok nodeBlob => do
    let node ← blobSpotReload rows nodeBlob rowid
    match node.2 with
    | .error e =>
      pure ⟨some e, some "vector index(delete): failed to reload blob for node row", rows⟩
    | .ok b => do
      match ← blobSpotCreate rows rowid with
      | .error e =>
        pure ⟨some e, some "vector index(delete): failed to create blob for edge rows", rows⟩
      | .ok edgeBlob => do
        let unlinked ← unlink b.edges edgeBlob rows
        match unlinked.1 with
        | some (e, message) => pure ⟨some e, some message, rows⟩
        | none => do
          match ← statement with
          | some c =>
            pure ⟨some (.failed c), some "vector index(delete): failed to remove shadow row", rows⟩
          | none => pure ⟨none, none, unlinked.2.erase rowid⟩

/-- `diskAnnDelete`: a key that is not a rowid is looked up first. -/
def diskAnnDelete (rows : Shadow (Block N E D)) : RowKey → Calls Code (Written (Block N E D))
  | .rowidLike r => deleteNode rows r
  | .other r taken => do
    let failed (c : Code) : Written (Block N E D) :=
      ⟨some (.failed c),
        some "vector index(delete): failed to determined node id for deletion", rows⟩
    match ← statement with
    | some c => pure (failed c)
    -- a statement that finds no row ends with `SQLITE_DONE`
    | none => if taken then deleteNode rows r else pure (failed (.other 101))

end SqlAnywhere.DiskAnn
