import Mathlib.Data.List.Forall2
import SqlAnywhere.Server.CommittedLog

/-!
# The write-ahead log that also writes the replication log

On a primary the write-ahead log of SQLite is wrapped: the pages that are written to it are written to
the replication log first, and the replication log is committed after it.

* `WalPage`, `Wal` — the pages that are buffered, and the log that is wrapped
* `Sys`, `insertFrames`, `undo` — the calls of the wrapper
* `Mirrors` — the transactions of the replication log are those of the wrapped one
* `mirrors_of_careful` — they are where a failed insertion is undone before the next one
* `failed_spill_logged` — and otherwise not
-/

namespace SqlAnywhere.Server.LoggerWal

open List Overwrite
open ReplicationLog ForkLog

variable {α : Type*} {pages : List (ℕ × α)}

/-- The pages of a database file after pages were written to it, by their numbers. -/
abbrev writePages (file : Pages α) (pages : List (ℕ × α)) : Pages α :=
  Overwrite.write Prod.fst Prod.snd file pages

structure WalPage (α : Type*) where
  pageNo : ℕ
  sizeAfter : ℕ
  data : α

/-- A transaction of the wrapped log: its frames, the size of the database after it, and all pages
that were inserted for it, with those that a savepoint took back. -/
structure Txn (α : Type*) where
  frames : List (ℕ × α)
  sizeAfter : ℕ
  inserted : List (ℕ × α)

/-- The wrapped log, with the frames of the transaction that is not committed yet. -/
structure Wal (α : Type*) where
  committed : List (Txn α)
  frames : List (ℕ × α)
  inserted : List (ℕ × α)

structure Sys (α : Type*) where
  /-- `ReplicationLoggerWalWrapper`: pages that are not written to the replication log yet -/
  buffer : List (WalPage α)
  log : LogFile α
  /-- all frames that were ever committed to the replication log -/
  history : List (Frame α)
  wal : Wal α
  /-- pages whose frames a savepoint took back, and which were not inserted again -/
  restored : List ℕ
  /-- an insertion has failed, and nothing was undone since -/
  failed : Bool

/-- Where an insertion fails, if it does. -/
inductive Fault
  | none
  /-- in the replication log, after as many pages -/
  | log (written : ℕ)
  | wal

/-- `write_frame` of each page: the size is set later. -/
def unsized (pages : List (ℕ × α)) : List (WalPage α) :=
  pages.map fun page => ⟨page.1, 0, page.2⟩

/-- `flush` sets the size on the last page of the buffer. -/
def setSize (sizeAfter : ℕ) : List (WalPage α) → List (WalPage α)
  | [] => []
  | [page] => [{ page with sizeAfter }]
  | page :: pages => page :: setSize sizeAfter pages

/-- `write_pages` -/
def pushPages (log : LogFile α) (pages : List (WalPage α)) : LogFile α :=
  pages.foldl (fun log page => log.pushPage page.pageNo page.sizeAfter page.data) log

namespace Sys

def new : Sys α := ⟨[], .new 0, [], ⟨[], [], []⟩, [], false⟩

/-- The pages of a call are put in the buffer. -/
def writeFrame (s : Sys α) (pages : List (ℕ × α)) : Sys α :=
  { s with buffer := s.buffer ++ unsized pages }

/-- `flush`: the buffer stays when the log fails. -/
def flush (s : Sys α) (sizeAfter : ℕ) (fault : Fault) : Except (Sys α) (Sys α) :=
  if s.buffer.isEmpty then .ok s
  else
    let buffer := setSize sizeAfter s.buffer
    match fault with
    | .log written => .error { s with buffer, log := pushPages s.log (buffer.take written) }
    | _ => .ok { s with buffer := [], log := pushPages s.log buffer }

/-- `insert_frames` of the wrapped log. -/
def insertWal (s : Sys α) (pages : List (ℕ × α)) (sizeAfter : ℕ) (isCommit : Bool) : Sys α :=
  let frames := s.wal.frames ++ pages
  let inserted := s.wal.inserted ++ pages
  if isCommit then
    { s with
      wal := ⟨s.wal.committed ++ [⟨frames, sizeAfter, inserted⟩], [], []⟩
      restored := [] }
  else
    { s with
      wal := { s.wal with frames, inserted }
      restored := s.restored.filter (· ∉ pages.map Prod.fst) }

/-- `commit` of the replication log. -/
def commit (s : Sys α) : Sys α :=
  { s with history := s.history ++ s.log.uncommitted, log := s.log.commit }

/-- `maybe_compact`, where it does -/
def compact (s : Sys α) : Sys α :=
  { s with log := .new (s.log.startFrameNo + s.log.frames.length) }

def insertFrames (s : Sys α) (pages : List (ℕ × α)) (sizeAfter : ℕ) (isCommit : Bool)
    (fault : Fault) (compacts : Bool) : Sys α :=
  match (s.writeFrame pages).flush sizeAfter fault with
  | .error s => { s with failed := true }
  | .ok s =>
    match fault with
    | .wal => { s with failed := true }
    | _ =>
      let s := s.insertWal pages sizeAfter isCommit
      if isCommit then if compacts then s.commit.compact else s.commit else s

def undo (s : Sys α) : Sys α :=
  { s with
    buffer := []
    log := s.log.rollback
    wal := { s.wal with frames := [], inserted := [] }
    restored := []
    failed := false }

/-- `savepoint_undo`, which is not wrapped: frames of the transaction are taken back. -/
def savepointUndo (s : Sys α) (keep : ℕ) : Sys α :=
  { s with
    wal := { s.wal with frames := s.wal.frames.take keep }
    restored := s.restored ++ (s.wal.frames.drop keep).map Prod.fst }

/-- The transaction ends without `undo`: the wrapped log forgets its frames when the next one begins. -/
def endTransaction (s : Sys α) : Sys α :=
  { s with wal := { s.wal with frames := [], inserted := [] }, restored := [] }

end Sys

inductive Action (α : Type*)
  | insertFrames (pages : List (ℕ × α)) (sizeAfter : ℕ) (isCommit : Bool) (fault : Fault)
      (compacts : Bool)
  | undo
  | savepointUndo (keep : ℕ)
  | endTransaction

def step (s : Sys α) : Action α → Option (Sys α)
  | .insertFrames pages sizeAfter isCommit fault compacts =>
    some (s.insertFrames pages sizeAfter isCommit fault compacts)
  | .undo => some s.undo
  | .savepointUndo keep => some (s.savepointUndo keep)
  | .endTransaction => some s.endTransaction

/-- Frames of the replication log that stand for a transaction of the wrapped one: they are what was
inserted for it, they give the same pages, and the size is on the last of them only. -/
structure Matches (frames : List (Frame α)) (txn : Txn α) : Prop where
  inserted : (frames.map fun frame => (frame.pageNo, frame.page)) = txn.inserted
  pages : ∀ file, writeFrames file frames = writePages file txn.frames
  sizes : ∃ init last, frames = init ++ [last] ∧ (∀ frame ∈ init, frame.sizeAfter = 0) ∧
    last.sizeAfter = txn.sizeAfter ∧ txn.sizeAfter ≠ 0

/-- **The replication log mirrors the wrapped one**: transaction by transaction, and what can be read
of it is of these transactions. -/
structure Mirrors (s : Sys α) : Prop where
  txns : ∃ groups, s.history = groups.flatten ∧ List.Forall₂ Matches groups s.wal.committed
  readable : ∀ n frame, s.log.frame n = .ok frame → s.history[n]? = some frame

/-- **The calls after which the logs agree.**  After an insertion that failed comes `undo`, and a
transaction ends without it only if it has inserted nothing.  SQLite inserts at least one page,
gives a size with commits and only with them, and inserts the pages that a savepoint restored before
it commits. -/
def Careful (s : Sys α) : Action α → Prop
  | .insertFrames pages sizeAfter isCommit _ _ =>
    s.failed = false ∧ pages ≠ [] ∧ (isCommit = true ↔ sizeAfter ≠ 0) ∧
      (isCommit = true → ∀ pageNo ∈ s.restored, pageNo ∈ pages.map Prod.fst)
  | .endTransaction => s.log.uncommitted = [] ∧ s.buffer = []
  | _ => True

/-! ### Writing to the replication log -/

/-- The frames that pages become. -/
def framesOf (frameNo : ℕ) : List (WalPage α) → List (Frame α)
  | [] => []
  | page :: pages =>
    ⟨frameNo, page.pageNo, page.sizeAfter, page.data⟩ :: framesOf (frameNo + 1) pages

theorem pushPages_eq (log : LogFile α) (pages : List (WalPage α)) :
    pushPages log pages =
      { log with uncommitted := log.uncommitted ++ framesOf log.nextFrameNo pages } := by
  induction pages generalizing log with
  | nil =>
    show log = _
    rw [framesOf, append_nil]
  | cons page pages ih =>
    have hnext : (log.pushPage page.pageNo page.sizeAfter page.data).nextFrameNo =
        log.nextFrameNo + 1 := by
      simp only [LogFile.nextFrameNo, LogFile.pushPage, length_append, length_singleton]
      omega
    show pushPages (log.pushPage page.pageNo page.sizeAfter page.data) pages = _
    rw [ih, hnext, framesOf]
    simp only [LogFile.pushPage, append_assoc, singleton_append]

theorem framesOf_append (frameNo : ℕ) (pages pages' : List (WalPage α)) :
    framesOf frameNo (pages ++ pages') =
      framesOf frameNo pages ++ framesOf (frameNo + pages.length) pages' := by
  induction pages generalizing frameNo with
  | nil => rfl
  | cons page pages ih =>
    rw [cons_append, framesOf, framesOf, ih, cons_append, length_cons]
    congr 3
    omega

theorem framesOf_pages (frameNo : ℕ) (pages : List (WalPage α)) :
    ((framesOf frameNo pages).map fun frame => (frame.pageNo, frame.page)) =
      pages.map fun page => (page.pageNo, page.data) := by
  induction pages generalizing frameNo with
  | nil => rfl
  | cons page pages ih => rw [framesOf, map_cons, ih, map_cons]

theorem framesOf_sizes {frameNo : ℕ} {pages : List (WalPage α)}
    (h : ∀ page ∈ pages, page.sizeAfter = 0) :
    ∀ frame ∈ framesOf frameNo pages, frame.sizeAfter = 0 := by
  induction pages generalizing frameNo with
  | nil => nofun
  | cons page pages ih =>
    intro frame hframe
    rcases mem_cons.1 hframe with rfl | hframe
    · exact h page (mem_cons_self ..)
    · exact ih (fun page hpage => h page (mem_cons_of_mem _ hpage)) frame hframe

theorem setSize_concat (sizeAfter : ℕ) (pages : List (WalPage α)) (page : WalPage α) :
    setSize sizeAfter (pages ++ [page]) = pages ++ [{ page with sizeAfter }] := by
  induction pages with
  | nil => rfl
  | cons first pages ih =>
    cases pages with
    | nil => rfl
    | cons second pages => exact congrArg (first :: ·) ih

theorem pushPages_setSize (log : LogFile α) (sizeAfter : ℕ) (hne : pages ≠ []) :
    ∃ init last, pushPages log (setSize sizeAfter (unsized pages)) =
        { log with uncommitted := log.uncommitted ++ (init ++ [last]) } ∧
      (∀ frame ∈ init, frame.sizeAfter = 0) ∧ last.sizeAfter = sizeAfter ∧
      ((init ++ [last]).map fun frame => (frame.pageNo, frame.page)) = pages := by
  rw [← dropLast_append_getLast hne, unsized, map_append, map_singleton,
    setSize_concat, pushPages_eq, framesOf_append]
  refine ⟨_, _, rfl, ?_, rfl, ?_⟩
  · refine framesOf_sizes ?_
    intro page hpage
    obtain ⟨page, -, rfl⟩ := mem_map.1 hpage
    rfl
  · rw [map_append, framesOf_pages, map_map]
    congr 1
    exact map_id _

theorem writeFrames_eq (file : Pages α) (frames : List (Frame α)) :
    writeFrames file frames =
      writePages file (frames.map fun frame => (frame.pageNo, frame.page)) := by
  induction frames generalizing file with
  | nil => rfl
  | cons frame frames ih => exact ih _

/-! ### The open transaction -/

/-- Two lists of pages give the same, but for some pages. -/
def Agree (restored : List ℕ) (inserted frames : List (ℕ × α)) : Prop :=
  ∀ file pageNo, pageNo ∉ restored →
    writePages file inserted pageNo = writePages file frames pageNo

namespace Agree

variable {restored restored' : List ℕ} {inserted frames : List (ℕ × α)}

theorem refl (pages : List (ℕ × α)) : Agree restored pages pages := fun _ _ _ => rfl

theorem append (h : Agree restored inserted frames) (pages : List (ℕ × α))
    (hrestored : ∀ pageNo ∈ restored, pageNo ∈ pages.map Prod.fst ∨ pageNo ∈ restored') :
    Agree restored' (inserted ++ pages) (frames ++ pages) := by
  intro file pageNo hnot
  rw [writePages, writePages, write_append, write_append]
  by_cases hmem : pageNo ∈ pages.map Prod.fst
  · exact write_of_mem _ _ hmem
  refine write_congr ?_
  refine h file pageNo ?_
  intro hin
  exact (hrestored pageNo hin).elim hmem hnot

theorem take (h : Agree restored inserted frames) (keep : ℕ) :
    Agree (restored ++ (frames.drop keep).map Prod.fst) inserted (frames.take keep) := by
  intro file pageNo hnot
  rw [mem_append, not_or] at hnot
  rw [h file pageNo hnot.1]
  have hsplit : writePages file (frames.take keep ++ frames.drop keep) =
      writePages (writePages file (frames.take keep)) (frames.drop keep) :=
    write_append ..
  rw [take_append_drop] at hsplit
  rw [hsplit, writePages, write_of_notMem _ hnot.2]

end Agree

/-- What the replication log has of the transaction, as long as no insertion has failed. -/
structure Open (s : Sys α) : Prop where
  buffer : s.buffer = []
  inserted : (s.log.uncommitted.map fun frame => (frame.pageNo, frame.page)) = s.wal.inserted
  sizes : ∀ frame ∈ s.log.uncommitted, frame.sizeAfter = 0
  agree : Agree s.restored s.wal.inserted s.wal.frames

structure Inv (s : Sys α) : Prop where
  log : LogOf s.history s.log
  txns : ∃ groups, s.history = groups.flatten ∧ List.Forall₂ Matches groups s.wal.committed
  opened : s.failed = false → Open s

namespace Inv

variable {s : Sys α}

theorem new : Inv (Sys.new : Sys α) where
  log := ⟨Nat.le_refl _, rfl⟩
  txns := ⟨[], rfl, .nil⟩
  opened _ := ⟨rfl, rfl, nofun, Agree.refl []⟩

variable (h : Inv s)
include h

theorem mirrors : Mirrors s := ⟨h.txns, fun _ _ hframe => h.log.frame_ok hframe⟩

theorem undo : Inv s.undo where
  log := ⟨h.log.start_le, h.log.frames⟩
  txns := h.txns
  opened _ := ⟨rfl, rfl, nofun, Agree.refl []⟩

theorem savepointUndo (keep : ℕ) : Inv (s.savepointUndo keep) where
  __ := h
  opened hfailed :=
    let hopen := h.opened hfailed
    ⟨hopen.buffer, hopen.inserted, hopen.sizes, hopen.agree.take keep⟩

theorem endTransaction (huncommitted : s.log.uncommitted = []) :
    Inv s.endTransaction where
  __ := h
  opened hfailed := by
    refine ⟨(h.opened hfailed).buffer, ?_, (h.opened hfailed).sizes, Agree.refl []⟩
    show s.log.uncommitted.map _ = []
    rw [huncommitted]
    rfl

/-- The log fails, or the wrapped one: what is written of the transaction is not looked at before it is
undone. -/
theorem failed (buffer : List (WalPage α)) (pages : List (WalPage α)) :
    Inv { s with buffer, log := pushPages s.log pages, failed := true } where
  log := by
    rw [pushPages_eq]
    exact ⟨h.log.start_le, h.log.frames⟩
  txns := h.txns
  opened := nofun

end Inv

/-- An insertion into both logs. -/
def Sys.inserted (s : Sys α) (pages : List (ℕ × α)) (sizeAfter : ℕ) (isCommit : Bool) : Sys α :=
  { s with
    buffer := []
    log := pushPages s.log (setSize sizeAfter (unsized pages)) }.insertWal
    pages sizeAfter isCommit

/-- How an insertion ends, when the buffer was empty. -/
theorem insertFrames_cases (s : Sys α) (hne : pages ≠ [])
    (hbuffer : s.buffer = []) (sizeAfter : ℕ) (isCommit : Bool) (fault : Fault) (compacts : Bool) :
    (∃ buffer written, s.insertFrames pages sizeAfter isCommit fault compacts =
        { s with buffer, log := pushPages s.log written, failed := true }) ∨
      s.insertFrames pages sizeAfter isCommit fault compacts =
        (let s := s.inserted pages sizeAfter isCommit
         if isCommit then if compacts then s.commit.compact else s.commit else s) := by
  have hempty : (s.writeFrame pages).buffer = unsized pages := by
    show s.buffer ++ _ = _
    rw [hbuffer, nil_append]
  have hnot : ¬ (s.writeFrame pages).buffer.isEmpty = true := by
    rw [hempty, List.isEmpty_iff, unsized, List.map_eq_nil_iff]
    exact hne
  unfold Sys.insertFrames Sys.flush
  rw [if_neg hnot, hempty]
  cases fault with
  | none => exact .inr rfl
  | log | wal => exact .inl ⟨_, _, rfl⟩

namespace Inv

variable {s : Sys α}

theorem spill (h : Inv s) (hopen : Open s) (hne : pages ≠ []) :
    Inv (s.inserted pages 0 false) := by
  obtain ⟨init, last, hlog, hinit, hlast, hpages⟩ := pushPages_setSize s.log 0 hne
  have hsame : s.inserted pages 0 false =
      { s with
        buffer := []
        log := { s.log with uncommitted := s.log.uncommitted ++ (init ++ [last]) }
        wal := { s.wal with
          frames := s.wal.frames ++ pages
          inserted := s.wal.inserted ++ pages }
        restored := s.restored.filter (· ∉ pages.map Prod.fst) } := by
    rw [← hlog]
    rfl
  rw [hsame]
  refine ⟨⟨h.log.start_le, h.log.frames⟩, h.txns, fun _ => ⟨rfl, ?_, ?_, ?_⟩⟩
  · rw [map_append, hopen.inserted, hpages]
  · exact forall_mem_append.2
      ⟨hopen.sizes, forall_mem_append.2 ⟨hinit, forall_mem_singleton.2 hlast⟩⟩
  · refine hopen.agree.append pages ?_
    intro pageNo hpageNo
    by_cases hmem : pageNo ∈ pages.map Prod.fst
    · exact .inl hmem
    · exact .inr (mem_filter.2 ⟨hpageNo, decide_eq_true hmem⟩)

/-- The transaction is committed, to the wrapped log and then to the replication log. -/
theorem commit (h : Inv s) (hopen : Open s)
    (hne : pages ≠ []) {sizeAfter : ℕ} (hsize : sizeAfter ≠ 0)
    (hrestored : ∀ pageNo ∈ s.restored, pageNo ∈ pages.map Prod.fst) :
    Inv (s.inserted pages sizeAfter true).commit := by
  obtain ⟨init, last, hlog, hinit, hlast, hpages⟩ := pushPages_setSize s.log sizeAfter hne
  have hsame : (s.inserted pages sizeAfter true).commit =
      { s with
        buffer := []
        log := ⟨s.log.startFrameNo,
          s.log.frames ++ (s.log.uncommitted ++ (init ++ [last])), []⟩
        history := s.history ++ (s.log.uncommitted ++ (init ++ [last]))
        wal := ⟨s.wal.committed ++
          [⟨s.wal.frames ++ pages, sizeAfter, s.wal.inserted ++ pages⟩], [], []⟩
        restored := [] } := by
    unfold Sys.commit Sys.inserted
    rw [hlog]
    rfl
  obtain ⟨groups, hgroups, hmatch⟩ := h.txns
  have happend := h.log.append (s.log.uncommitted ++ (init ++ [last]))
  have hinserted : ((s.log.uncommitted ++ (init ++ [last])).map
      fun frame => (frame.pageNo, frame.page)) = s.wal.inserted ++ pages := by
    rw [map_append, hopen.inserted, hpages]
  rw [hsame]
  refine ⟨⟨happend.start_le, happend.frames⟩,
    ⟨groups ++ [s.log.uncommitted ++ (init ++ [last])], ?_, ?_⟩,
    fun _ => ⟨rfl, rfl, nofun, Agree.refl []⟩⟩
  · rw [hgroups, flatten_append, flatten_singleton]
  · refine rel_append hmatch (.cons ⟨hinserted, ?_, ?_⟩ .nil)
    · intro file
      rw [writeFrames_eq, hinserted]
      funext pageNo
      exact hopen.agree.append pages (fun p hp => .inl (hrestored p hp)) file pageNo
        not_mem_nil
    · exact ⟨s.log.uncommitted ++ init, last, (append_assoc ..).symm,
        forall_mem_append.2 ⟨hopen.sizes, hinit⟩, hlast, hsize⟩

theorem compact (h : Inv s) (hcommitted : s.log.uncommitted = []) : Inv s.compact where
  log := h.log.swapped
  txns := h.txns
  opened hfailed :=
    let hopen := h.opened hfailed
    ⟨hopen.buffer, by
      show [] = s.wal.inserted
      rw [← hopen.inserted, hcommitted]
      rfl, nofun, hopen.agree⟩

theorem step {s' : Sys α} (h : Inv s) {a : Action α} (hcareful : Careful s a)
    (hstep : step s a = some s') : Inv s' := by
  cases a with
  | insertFrames pages sizeAfter isCommit fault compacts =>
    cases hstep
    obtain ⟨hfailed, hne, hcommit, hrestored⟩ := hcareful
    have hopen := h.opened hfailed
    rcases insertFrames_cases s hne hopen.buffer sizeAfter isCommit fault compacts with
      ⟨buffer, written, heq⟩ | heq
    · rw [heq]
      exact h.failed buffer written
    · rw [heq]
      split
      · next hc =>
        subst hc
        have hcommitted := h.commit hopen hne (hcommit.1 rfl) (hrestored rfl)
        split
        · exact hcommitted.compact rfl
        · exact hcommitted
      · next hc =>
        have hc : isCommit = false := Bool.eq_false_iff.2 hc
        subst hc
        have hzero : sizeAfter = 0 := by
          by_contra hsize
          cases hcommit.2 hsize
        rw [hzero]
        exact h.spill hopen hne
  | undo =>
    cases hstep
    exact h.undo
  | savepointUndo keep =>
    cases hstep
    exact h.savepointUndo keep
  | endTransaction =>
    cases hstep
    exact h.endTransaction hcareful.1

end Inv

/-- **The replication log mirrors the wrapped one** in every run whose calls are all careful. -/
theorem mirrors_of_careful {actions : List (Action α)} {s : Sys α}
    (halong : Run.Along step Careful Sys.new actions)
    (hexec : Run.exec step Sys.new actions = some s) : Mirrors s := by
  have hinv : Inv s := Run.exec_invariant (fun s a s' h hok hstep => h.step hok hstep) Inv.new
    halong hexec
  exact hinv.mirrors

section Example

instance (s : Sys α) : (a : Action α) → Decidable (Careful s a)
  | .insertFrames pages sizeAfter isCommit _ _ => inferInstanceAs (Decidable
      (s.failed = false ∧ pages ≠ [] ∧ (isCommit = true ↔ sizeAfter ≠ 0) ∧
        (isCommit = true → ∀ pageNo ∈ s.restored, pageNo ∈ pages.map Prod.fst)))
  | .endTransaction => inferInstanceAs (Decidable (s.log.uncommitted = [] ∧ s.buffer = []))
  | .undo => isTrue trivial
  | .savepointUndo _ => isTrue trivial

/-- A transaction with a savepoint, one that fails and is undone, and another one. -/
def undone : List (Action ℕ) :=
  [.insertFrames [(1, 10)] 0 false .none false, .insertFrames [(2, 11)] 0 false .none false,
    .savepointUndo 1, .insertFrames [(2, 12)] 2 true .none false,
    .insertFrames [(1, 13)] 0 false .wal false, .undo,
    .insertFrames [(2, 14), (1, 15)] 2 true .none true]

theorem mirrors_of_careful_undone :
    ∃ s, Run.exec step Sys.new undone = some s ∧ s.history.length = 5 ∧ Mirrors s := by
  obtain ⟨s, hexec, hlength⟩ :
      ∃ s, Run.exec step Sys.new undone = some s ∧ s.history.length = 5 := by decide +kernel
  exact ⟨s, hexec, hlength, mirrors_of_careful (by decide +kernel) hexec⟩

/-- A page is spilled before the end of a transaction, the wrapped log fails, and the transaction ends
without `undo`. -/
def failedSpill : List (Action ℕ) :=
  [.insertFrames [(1, 10)] 0 false .wal false, .endTransaction,
    .insertFrames [(2, 11)] 2 true .none false]

/-- The page is then committed with the next transaction. -/
theorem failed_spill_logged :
    ∃ s, Run.exec step Sys.new failedSpill = some s ∧
      (s.history.map fun frame => (frame.pageNo, frame.page)) = [(1, 10), (2, 11)] ∧
      s.wal.committed.map Txn.frames = [[(2, 11)]] ∧ ¬ Mirrors s := by
  refine ⟨_, rfl, rfl, rfl, ?_⟩
  rintro ⟨⟨groups, hgroups, hmatch⟩, -⟩
  obtain ⟨group, rest, hgroup, hrest, rfl⟩ := List.forall₂_cons_right_iff.1 hmatch
  cases hrest
  have hinserted := hgroup.inserted
  rw [List.flatten_singleton] at hgroups
  rw [← hgroups] at hinserted
  exact absurd hinserted (by decide)

end Example

end SqlAnywhere.Server.LoggerWal
