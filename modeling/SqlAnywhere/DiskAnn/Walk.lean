import SqlAnywhere.DiskAnn.Block
import SqlAnywhere.Lib.Calls
import SqlAnywhere.Lib.RowTable

/-!
# The walk over a DiskANN index

`diskAnnSearchInternal`, which both a search and an insertion use: from a start row on, the closest
candidate not visited yet is loaded and its neighbours become candidates, until every candidate was
visited.  Every use of memory and of SQLite's blob handles is a call that may fail.

* `Shadow` — the shadow table: the rows of the index and their blocks
* `blobSpotCreate`, `blobSpotReload` — the blob handles, with their retry after a failed one
* `SearchCtx` and its functions — candidates, the best ones, the visited list
* `walk` — what has happened when the clean-up label is reached
-/

namespace SqlAnywhere.DiskAnn

/-! ### Result codes and the shadow table -/

/-- The error codes of SQLite that matter here. -/
inductive Code
  | error
  | abort
  | nomem
  | other (n : ℕ)
  deriving DecidableEq

/-- What a result code other than `SQLITE_OK` is: `DISKANN_ROW_NOT_FOUND` or an error. -/
inductive Fault
  | rowNotFound
  | failed (c : Code)
  deriving DecidableEq

/-- The number of a result code. -/
def Fault.code : Fault → ℕ
  | rowNotFound => 1001
  | failed .error => 1
  | failed .abort => 4
  | failed .nomem => 7
  | failed (.other n) => n

/-- A result code; `none` is `SQLITE_OK`. -/
abbrev Rc := Option Fault

/-- The shadow table of an index: the rows of the index and their blocks. -/
abbrev Shadow (B : Type) := RowTable ℕ B

variable {N E D B : Type}

/-! ### Blob handles -/

/-- A `BlobSpot`: `buffer` is there when it is initialized. -/
structure BlobSpot (B : Type) where
  rowid : ℕ
  buffer : Option B
  isAborted : Bool

/-- What the label `abort` does. -/
def BlobSpot.abort (spot : BlobSpot B) : BlobSpot B :=
  { spot with buffer := none, isAborted := true }

/-- `sqlite3_blob_open` and `sqlite3_blob_reopen`, after `blobSpotConvertRc`. -/
def blobOpen (rows : Shadow B) (rowid : ℕ) : Calls Code Rc := do
  match ← Calls.ask with
  | some c => pure (some (.failed c))
  | none => pure (if (rows.get rowid).isSome then none else some .rowNotFound)

/-- `blobSpotCreate`: memory for the spot and its buffer, then the handle. -/
def blobSpotCreate (rows : Shadow B) (rowid : ℕ) : Calls Code (Except Fault (BlobSpot B)) := do
  let spot ← Calls.ask
  if spot.isSome then pure (.error (.failed .nomem))
  else do
    let buffer ← Calls.ask
    if buffer.isSome then pure (.error (.failed .nomem))
    else do
      match ← blobOpen rows rowid with
      | none => pure (.ok ⟨rowid, none, false⟩)
      | some e => pure (.error e)

/-- A handle whose last use was aborted is closed and a new one opened. -/
def openAborted (rows : Shadow B) (spot : BlobSpot B) (rowid : ℕ) :
    Calls Code (BlobSpot B × Rc) :=
  if spot.isAborted then do
    let rc ← blobOpen rows rowid
    pure (⟨rowid, none, false⟩, rc)
  else pure (spot, none)

/-- A handle of another row is moved to this one. -/
def reopen (rows : Shadow B) (spot : BlobSpot B) (rowid : ℕ) : Calls Code (BlobSpot B × Rc) :=
  if spot.rowid = rowid then pure (spot, none)
  else do
    let rc ← blobOpen rows rowid
    pure (if rc = none then { spot with rowid := rowid, buffer := none } else spot, rc)

/-- `sqlite3_blob_read` of the whole block. -/
def readBlock (rows : Shadow B) (spot : BlobSpot B) : Calls Code (BlobSpot B × Except Fault B) := do
  match ← Calls.ask with
  | some c => pure (spot.abort, .error (.failed c))
  | none =>
    match rows.get spot.rowid with
    | some b => pure ({ spot with buffer := some b }, .ok b)
    | none => pure (spot.abort, .error (.failed .abort))

/-- `blobSpotReload`: the spot with the block of `rowid`, and that block. -/
def blobSpotReload (rows : Shadow B) (spot : BlobSpot B) (rowid : ℕ) :
    Calls Code (BlobSpot B × Except Fault B) :=
  match if spot.rowid = rowid then spot.buffer else none with
  | some b => pure (spot, .ok b)
  | none => do
    let opened ← openAborted rows spot rowid
    match opened.2 with
    | some e => pure (opened.1.abort, .error e)
    | none => do
      let moved ← reopen rows opened.1 rowid
      match moved.2 with
      | some e => pure (moved.1.abort, .error e)
      | none => readBlock rows moved.1

/-! ### The search context -/

/-- A `DiskAnnNode`. -/
structure Node (B : Type) where
  rowid : ℕ
  visited : Bool
  blob : Option (BlobSpot B)

/-- A `DiskAnnSearchCtx`; the arrays of nodes and of distances are one list. -/
structure SearchCtx (N D B : Type) where
  query : N
  candidates : List (Node B × D)
  maxCandidates : ℕ
  top : List (Node B × D)
  maxTop : ℕ
  visitedList : List (Node B)
  nUnvisited : ℕ
  /-- `DISKANN_BLOB_WRITABLE`, or read only. -/
  writable : Bool

/-- `bufferInsert`: when the buffer is full its last element goes. -/
def bufferInsert {α : Type} (l : List α) (max i : ℕ) (a : α) : List α :=
  (l.take i ++ a :: l.drop i).take max

/-- `topCandidateInsertIdx`: equal distances are ordered by rowid. -/
def topInsertIdx (idx : Index N E D) (top : List (Node B × D)) (max : ℕ) (d : D) (rowid : ℕ) :
    Option ℕ :=
  (top.findIdx? fun c => idx.lt d c.2 || (idx.eq d c.2 && decide (rowid < c.1.rowid))) <|>
    if top.length < max then some top.length else none

namespace SearchCtx

/-- The context that `diskAnnSearchCtxInit` sets up. -/
def init (query : N) (maxCandidates maxTop : ℕ) (writable : Bool) : SearchCtx N D B :=
  ⟨query, [], maxCandidates, [], maxTop, [], 0, writable⟩

/-- `diskAnnSearchCtxIsVisited`. -/
def isVisited (ctx : SearchCtx N D B) (rowid : ℕ) : Bool :=
  ctx.visitedList.any fun n => n.rowid = rowid

/-- `diskAnnSearchCtxHasCandidate`. -/
def hasCandidate (ctx : SearchCtx N D B) (rowid : ℕ) : Bool :=
  ctx.candidates.any fun c => c.1.rowid = rowid

/-- `diskAnnSearchCtxShouldAddCandidate`. -/
def shouldAddCandidate (ctx : SearchCtx N D B) (idx : Index N E D) (d : D) : Option ℕ :=
  (ctx.candidates.findIdx? fun c => idx.lt d c.2) <|>
    if ctx.candidates.length < ctx.maxCandidates then some ctx.candidates.length else none

/-- `diskAnnSearchCtxFindClosestCandidateIdx`. -/
def closest (ctx : SearchCtx N D B) : Option ℕ :=
  ctx.candidates.findIdx? fun c => !c.1.visited

/-- The candidate that a full buffer loses to a new one. -/
def last (ctx : SearchCtx N D B) : Option (Node B × D) :=
  if ctx.candidates.length = ctx.maxCandidates then ctx.candidates.getLast? else none

/-- `diskAnnSearchCtxInsertCandidate`. -/
def insertCandidate (ctx : SearchCtx N D B) (i : ℕ) (node : Node B) (d : D) : SearchCtx N D B :=
  { ctx with
    candidates := bufferInsert ctx.candidates ctx.maxCandidates i (node, d)
    nUnvisited :=
      (if ctx.last.any fun c => !c.1.visited then ctx.nUnvisited - 1 else ctx.nUnvisited) + 1 }

/-- `diskAnnSearchCtxDeleteCandidate`. -/
def deleteCandidate (ctx : SearchCtx N D B) (i : ℕ) : SearchCtx N D B :=
  { ctx with candidates := ctx.candidates.eraseIdx i, nUnvisited := ctx.nUnvisited - 1 }

/-- `diskAnnSearchCtxMarkVisited`, of the candidate at `i`. -/
def markVisited (ctx : SearchCtx N D B) (idx : Index N E D) (i : ℕ) (node : Node B) (d : D) :
    SearchCtx N D B :=
  let node := { node with visited := true }
  { ctx with
    candidates := ctx.candidates.modify i fun c => (node, c.2)
    nUnvisited := ctx.nUnvisited - 1
    visitedList := node :: ctx.visitedList
    top := match topInsertIdx idx ctx.top ctx.maxTop d node.rowid with
      | some j => bufferInsert ctx.top ctx.maxTop j (node, d)
      | none => ctx.top }

end SearchCtx

/-! ### The walk -/

/-- Where `diskAnnSearchInternal` stands: the context, the blob that a search reuses, and what the
clean-up label would be reached with. -/
structure Walk (N D B : Type) where
  ctx : SearchCtx N D B
  reusable : Option (BlobSpot B)
  rc : Rc
  message : Option String

/-- The block of a candidate, the reused blob and the candidate with its own blob. -/
structure Loaded (B : Type) where
  reusable : Option (BlobSpot B)
  node : Node B
  block : Except Fault B

/-- Load the block of a candidate, into the reused blob or into one of its own. -/
def loadCandidate (rows : Shadow B) (reusable : Option (BlobSpot B)) (node : Node B) :
    Calls Code (Loaded B) :=
  match reusable with
  | some spot => do
    let r ← blobSpotReload rows spot node.rowid
    pure ⟨some r.1, node, r.2⟩
  | none =>
    match node.blob with
    | some spot => do
      let r ← blobSpotReload rows spot node.rowid
      pure ⟨none, { node with blob := some r.1 }, r.2⟩
    | none => do
      match ← blobSpotCreate rows node.rowid with
      | .error e => pure ⟨none, node, .error e⟩
      | .ok spot => do
        let r ← blobSpotReload rows spot node.rowid
        pure ⟨none, { node with blob := some r.1 }, r.2⟩

/-- The loop over the neighbours of the candidate just visited. -/
def addNeighbours (idx : Index N E D) : List (Edge E D) → SearchCtx N D B →
    Calls Code (SearchCtx N D B)
  | [], ctx => pure ctx
  | e :: es, ctx =>
    if ctx.isVisited e.rowid || ctx.hasCandidate e.rowid then addNeighbours idx es ctx
    else
      let d := idx.edgeDistance (idx.convert ctx.query) e.vector
      match ctx.shouldAddCandidate idx d with
      | none => addNeighbours idx es ctx
      | some i => do
        -- a node that cannot be allocated is passed over
        let node ← Calls.ask
        if node.isSome then addNeighbours idx es ctx
        else addNeighbours idx es (ctx.insertCandidate i ⟨e.rowid, false, none⟩ d)

/-- One round of the loop, for the candidate at `i`. -/
def visit (idx : Index N E D) (rows : Shadow (Block N E D)) (w : Walk N D (Block N E D)) (i : ℕ)
    (c : Node (Block N E D) × D) : Calls Code (Walk N D (Block N E D)) := do
  let r ← loadCandidate rows w.reusable c.1
  match r.block with
  | .error .rowNotFound =>
    pure { w with ctx := w.ctx.deleteCandidate i, reusable := r.reusable }
  | .error e =>
    pure { w with
      reusable := r.reusable, rc := some e
      message := some "vector index(search): failed to create new blob for candidate" }
  | .ok b => do
    let d := if idx.compressed then idx.distance b.vector w.ctx.query else c.2
    let ctx ← addNeighbours idx b.edges (w.ctx.markVisited idx i r.node d)
    pure { w with ctx := ctx, reusable := r.reusable }

/-- The loop, for at most `fuel` rounds. -/
def walkFrom (idx : Index N E D) (rows : Shadow (Block N E D)) :
    ℕ → Walk N D (Block N E D) → Calls Code (Walk N D (Block N E D))
  | 0, w => pure w
  | fuel + 1, w =>
    if w.rc = none ∧ 0 < w.ctx.nUnvisited then
      match w.ctx.closest.bind fun i => (w.ctx.candidates[i]?).map fun c => (i, c) with
      | none => pure w
      | some (i, c) => do
        let w' ← visit idx rows w i c
        walkFrom idx rows fuel w'
    else pure w

/-- The rounds there can be: each visits another row or drops one of the candidates. -/
def rounds (rows : Shadow B) (ctx : SearchCtx N D B) : ℕ :=
  (rows.rowids.length + 1) * (ctx.maxCandidates + 1)

/-- The walk when the start row is in the candidates: a search keeps the blob to reuse it, an
insertion leaves it to the node. -/
def Walk.begin (idx : Index N E D) (ctx : SearchCtx N D (Block N E D)) (start : ℕ)
    (spot : BlobSpot (Block N E D)) (b : Block N E D) : Walk N D (Block N E D) where
  ctx := ctx.insertCandidate 0 ⟨start, false, if ctx.writable then some spot else none⟩
    (idx.distance ctx.query b.vector)
  reusable := if ctx.writable then none else some spot
  rc := none
  message := none

/-- `diskAnnSearchInternal` up to its clean-up label. -/
def walk (idx : Index N E D) (rows : Shadow (Block N E D)) (ctx : SearchCtx N D (Block N E D))
    (start : ℕ) : Calls Code (Walk N D (Block N E D)) := do
  let node ← Calls.ask
  if node.isSome then
    pure ⟨ctx, none, some (.failed .nomem),
      some "vector index(search): failed to allocate new node"⟩
  else do
    match ← blobSpotCreate rows start with
    | .error e =>
      pure ⟨ctx, none, some e, some "vector index(search): failed to create new blob"⟩
    | .ok spot => do
      let r ← blobSpotReload rows spot start
      match r.2 with
      | .error e =>
        pure ⟨ctx, none, some e, some "vector index(search): failed to load new blob"⟩
      | .ok b => walkFrom idx rows (rounds rows ctx) (Walk.begin idx ctx start r.1 b)

/-- `diskAnnSearchInternal`: the clean-up label returns `SQLITE_OK`, whatever `rc` is. -/
def diskAnnSearchInternal (idx : Index N E D) (rows : Shadow (Block N E D))
    (ctx : SearchCtx N D (Block N E D)) (start : ℕ) :
    Calls Code (SearchCtx N D (Block N E D) × Option String × Rc) := do
  let w ← walk idx rows ctx start
  pure (w.ctx, w.message, none)

end SqlAnywhere.DiskAnn
