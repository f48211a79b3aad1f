import Mathlib.Order.Bounds.Basic
import SqlAnywhere.Lib.Run
import SqlAnywhere.Server.ReplicationLog

/-!
# The injector of a replica

A replica writes the frames that it receives to its own write-ahead log.  It buffers them, and flushes
the buffer when it is full or when a frame ends a transaction; the number that a commit is recorded
with is the largest one that the injector has seen since the transaction began.

* `SqliteInjector` — the buffer, the open transaction and the database under them
* `flush_spec` — what a flush does, by how it ends
* `Carried`, `Carried.inject` — the frames of a transaction that has not been committed yet
* `Feed` — the calls of the injector, with the frames since the last commit or rollback
* `commit_greatest` — the number that a commit returns
-/

namespace SqlAnywhere.Replication

open List
open Server.ReplicationLog

variable {α : Type*} {front back : Frame α} {frames frames' : List (Frame α)}
  {buffer : List (Frame α)}

/-- `SqliteInjectorInner`, with the database that its connection writes. -/
structure SqliteInjector (α : Type*) where
  isTxn : Bool
  buffer : List (Frame α)
  capacity : ℕ
  biggestUncommittedSeen : ℕ
  /-- the pages, after the last transaction that was committed -/
  db : Pages α
  /-- the frames that the open transaction has written to the write-ahead log -/
  written : List (Frame α)

/-- Where a flush fails, if it does. -/
inductive Fault
  | none
  /-- the connection cannot be opened, or its transaction not begun -/
  | begin
  /-- the statement fails, or the write-ahead log does not take the frames -/
  | inject
  /-- the schema cannot be refreshed, after the frames were taken -/
  | refresh
  deriving DecidableEq

namespace SqliteInjector

def new (capacity : ℕ) (db : Pages α) : SqliteInjector α := ⟨false, [], capacity, 0, db, []⟩

def rollback (i : SqliteInjector α) : SqliteInjector α :=
  { i with buffer := [], written := [], isTxn := false }

/-- `begin_txn`, on a connection of its own: what the old one had written is gone with it. -/
def beginTxn (i : SqliteInjector α) : SqliteInjector α :=
  if i.isTxn then i else { i with written := [] }

/-- `insert_frames` of the write-ahead log, for the frames of the buffer: they are committed if the
last of them, `back`, ends a transaction. -/
def insertFrames (i : SqliteInjector α) (back : Frame α) : SqliteInjector α :=
  if back.sizeAfter ≠ 0 then
    { i with db := writeFrames i.db (i.written ++ i.buffer), written := [], buffer := [] }
  else { i with written := i.written ++ i.buffer, buffer := [] }

def tryFlush (i : SqliteInjector α) (fault : Fault) :
    SqliteInjector α × Except Unit (Option ℕ) :=
  if i.isTxn = false ∧ fault = .begin then (i, .error ())
  else
    match i.buffer.head?, i.buffer.getLast? with
    | some front, some back =>
      let i := { i.beginTxn with
        biggestUncommittedSeen :=
          max i.biggestUncommittedSeen (max front.frameNo back.frameNo) }
      if fault = .inject then (i, .error ())
      else if back.sizeAfter ≠ 0 then
        if fault = .refresh then (i.insertFrames back, .error ())
        else
          ({ i.insertFrames back with isTxn := false, biggestUncommittedSeen := 0 },
            .ok (some i.biggestUncommittedSeen))
      else ({ i.insertFrames back with isTxn := true }, .ok none)
    | _, _ => (i.beginTxn, .ok none)

def flush (i : SqliteInjector α) (fault : Fault) : SqliteInjector α × Except Unit (Option ℕ) :=
  match i.tryFlush fault with
  | (i, .error e) => ({ i with biggestUncommittedSeen := 0 }.rollback, .error e)
  | (i, .ok ret) => (i, .ok ret)

/-- `inject_frame`: the frame that is pushed to the buffer and that fills it or ends a transaction is
flushed with the others. -/
def injectFrame (i : SqliteInjector α) (frame : Frame α) (fault : Fault) :
    SqliteInjector α × Except Unit (Option ℕ) :=
  let i := { i with buffer := i.buffer ++ [frame] }
  if frame.sizeAfter ≠ 0 ∨ i.capacity ≤ i.buffer.length then i.flush fault
  else (i, .ok none)

/-! ### What a flush does -/

/-- The numbers that a flush compares with the largest one so far. -/
def endsNo (front back : Frame α) : ℕ := max front.frameNo back.frameNo

/-- The ways in which a flush can end. -/
inductive Flushes (i : SqliteInjector α) (fault : Fault) :
    SqliteInjector α → Except Unit (Option ℕ) → Prop
  | idle : i.buffer = [] → Flushes i fault i.beginTxn (.ok none)
  | partly {front back : Frame α} : i.buffer.head? = some front → i.buffer.getLast? = some back →
      back.sizeAfter = 0 →
      Flushes i fault
        { i with
          isTxn := true
          buffer := []
          biggestUncommittedSeen := max i.biggestUncommittedSeen (endsNo front back)
          written := i.beginTxn.written ++ i.buffer }
        (.ok none)
  | commits {front back : Frame α} : i.buffer.head? = some front → i.buffer.getLast? = some back →
      back.sizeAfter ≠ 0 →
      Flushes i fault
        { i with
          isTxn := false
          buffer := []
          biggestUncommittedSeen := 0
          db := writeFrames i.db (i.beginTxn.written ++ i.buffer)
          written := [] }
        (.ok (some (max i.biggestUncommittedSeen (endsNo front back))))
  | fails : fault = .begin ∨ fault = .inject →
      Flushes i fault { i.rollback with biggestUncommittedSeen := 0 } (.error ())
  /-- the transaction is committed all the same -/
  | unrefreshed {back : Frame α} : i.buffer.getLast? = some back → back.sizeAfter ≠ 0 →
      fault = .refresh →
      Flushes i fault
        { i.rollback with
          biggestUncommittedSeen := 0
          db := writeFrames i.db (i.beginTxn.written ++ i.buffer) }
        (.error ())

variable (i : SqliteInjector α)
include i

@[simp] theorem beginTxn_db : i.beginTxn.db = i.db := by
  unfold beginTxn
  split_ifs <;> rfl

@[simp] theorem beginTxn_buffer : i.beginTxn.buffer = i.buffer := by
  unfold beginTxn
  split_ifs <;> rfl

@[simp] theorem beginTxn_capacity : i.beginTxn.capacity = i.capacity := by
  unfold beginTxn
  split_ifs <;> rfl

@[simp] theorem beginTxn_biggest :
    i.beginTxn.biggestUncommittedSeen = i.biggestUncommittedSeen := by
  unfold beginTxn
  split_ifs <;> rfl

omit i

theorem ends_of_ne_nil (h : buffer ≠ []) :
    ∃ front back, buffer.head? = some front ∧ buffer.getLast? = some back :=
  ⟨_, _, head?_eq_some_head h, getLast?_eq_some_getLast h⟩

theorem flush_spec (i : SqliteInjector α) (fault : Fault) :
    Flushes i fault (i.flush fault).1 (i.flush fault).2 := by
  unfold flush tryFlush
  by_cases hbegin : i.isTxn = false ∧ fault = .begin
  · rw [if_pos hbegin]
    exact .fails (.inl hbegin.2)
  · rw [if_neg hbegin]
    by_cases hnil : i.buffer = []
    · rw [hnil]
      exact .idle hnil
    · obtain ⟨front, back, hfront, hback⟩ := ends_of_ne_nil hnil
      rw [hfront, hback]
      dsimp only
      by_cases hinject : fault = .inject
      · rw [if_pos hinject]
        have h : Flushes i fault { i.rollback with biggestUncommittedSeen := 0 } (.error ()) :=
          .fails (.inr hinject)
        simpa [rollback] using h
      · rw [if_neg hinject]
        by_cases hsize : back.sizeAfter = 0
        · rw [if_neg (not_not_intro hsize)]
          simpa [insertFrames, hsize, endsNo] using Flushes.partly hfront hback hsize
        · rw [if_pos hsize]
          by_cases hrefresh : fault = .refresh
          · rw [if_pos hrefresh]
            simpa [insertFrames, hsize, rollback] using
              Flushes.unrefreshed hback hsize hrefresh
          · rw [if_neg hrefresh]
            simpa [insertFrames, hsize, endsNo] using Flushes.commits hfront hback hsize

end SqliteInjector

/-! ### The numbers of the commits -/

/-- A call of the injector. -/
inductive Call (α : Type*)
  | injectFrame (frame : Frame α) (fault : Fault)
  | flush (fault : Fault)
  | rollback

def Call.run (i : SqliteInjector α) : Call α → SqliteInjector α × Except Unit (Option ℕ)
  | .injectFrame frame fault => i.injectFrame frame fault
  | .flush fault => i.flush fault
  | .rollback => (i.rollback, .ok none)

/-- An injector and the frames that it was given since the last commit or rollback. -/
structure Feed (α : Type*) where
  injector : SqliteInjector α
  since : List (Frame α)

namespace Feed

def new (capacity : ℕ) (db : Pages α) : Feed α := ⟨.new capacity db, []⟩

/-- The frames that a call can commit. -/
def offered (s : Feed α) : Call α → List (Frame α)
  | .injectFrame frame _ => s.since ++ [frame]
  | .flush _ => s.since
  | .rollback => []

/-- A commit, and an error with its rollback, start over. -/
def step (s : Feed α) (call : Call α) : Option (Feed α) :=
  match call.run s.injector with
  | (i, .ok none) => some ⟨i, s.offered call⟩
  | (i, _) => some ⟨i, []⟩

end Feed

/-- The largest number of some frames. -/
def Greatest (frames : List (Frame α)) (n : ℕ) : Prop :=
  IsGreatest { m | ∃ frame ∈ frames, frame.frameNo = m } n

/-- The largest number of a buffer is at one of its ends, as in the frames of a log and in those of
a snapshot. -/
def LargestAtEnds (buffer : List (Frame α)) : Prop :=
  ∀ front ∈ buffer.head?, ∀ back ∈ buffer.getLast?,
    ∀ frame ∈ buffer, frame.frameNo ≤ SqliteInjector.endsNo front back

instance (buffer : List (Frame α)) : Decidable (LargestAtEnds buffer) := by
  unfold LargestAtEnds
  infer_instance

/-- The calls after which the injector does not remember a number of a transaction that is gone: no
rollback comes from outside while a part of the transaction is flushed. -/
def Careful (s : Feed α) : Call α → Prop
  | .injectFrame frame _ =>
    frame.sizeAfter ≠ 0 ∨ s.injector.capacity ≤ (s.injector.buffer ++ [frame]).length →
      LargestAtEnds (s.injector.buffer ++ [frame])
  | .flush _ => LargestAtEnds s.injector.buffer
  | .rollback => s.injector.biggestUncommittedSeen = 0

instance (s : Feed α) : (call : Call α) → Decidable (Careful s call)
  | .injectFrame frame _ => inferInstanceAs (Decidable
      (frame.sizeAfter ≠ 0 ∨ s.injector.capacity ≤ (s.injector.buffer ++ [frame]).length →
        LargestAtEnds (s.injector.buffer ++ [frame])))
  | .flush _ => inferInstanceAs (Decidable (LargestAtEnds s.injector.buffer))
  | .rollback => inferInstanceAs (Decidable (s.injector.biggestUncommittedSeen = 0))

/-- The frames since the last commit or rollback are those that were flushed and those in the buffer,
and the number is the largest one of the former. -/
def Feed.Fed (s : Feed α) : Prop :=
  ∃ flushed : List (Frame α), s.since = flushed ++ s.injector.buffer ∧
    (flushed = [] ∧ s.injector.biggestUncommittedSeen = 0 ∨
      Greatest flushed s.injector.biggestUncommittedSeen)

theorem greatest_ends
    (h : LargestAtEnds buffer) (hfront : buffer.head? = some front)
    (hback : buffer.getLast? = some back) :
    Greatest buffer (SqliteInjector.endsNo front back) := by
  refine ⟨?_, ?_⟩
  · rcases Nat.le_total front.frameNo back.frameNo with hle | hle
    · exact ⟨back, mem_of_getLast? hback, (Nat.max_eq_right hle).symm⟩
    · exact ⟨front, mem_of_head? hfront, (Nat.max_eq_left hle).symm⟩
  · rintro m ⟨frame, hframe, rfl⟩
    exact h front hfront back hback frame hframe

theorem Greatest.append {n n' : ℕ} (h : Greatest frames n)
    (h' : Greatest frames' n') : Greatest (frames ++ frames') (max n n') := by
  have hunion : { m | ∃ frame ∈ frames ++ frames', frame.frameNo = m } =
      { m | ∃ frame ∈ frames, frame.frameNo = m } ∪
        { m | ∃ frame ∈ frames', frame.frameNo = m } := by
    ext m
    simp only [mem_append, or_and_right, exists_or, Set.mem_ofPred_eq, Set.mem_union]
  rw [Greatest, hunion]
  exact h.union h'

/-- Frames in ascending order, as those of a log, or in descending order, as those of a snapshot. -/
def Ordered (frames : List (Frame α)) : Prop :=
  frames.Pairwise (·.frameNo ≤ ·.frameNo) ∨ frames.Pairwise (·.frameNo ≥ ·.frameNo)

theorem Ordered.sublist (h : Ordered frames)
    (hsub : frames'.Sublist frames) : Ordered frames' :=
  h.imp (·.sublist hsub) (·.sublist hsub)

theorem Ordered.largestAtEnds {frames : List (Frame α)} (h : Ordered frames) :
    LargestAtEnds frames := by
  intro front hfront back hback frame hframe
  unfold SqliteInjector.endsNo
  rcases h with hasc | hdesc
  · obtain ⟨init, rfl⟩ := getLast?_eq_some_iff.1 hback
    rcases mem_append.1 hframe with hinit | hlast
    · have := (pairwise_append.1 hasc).2.2 frame hinit back (mem_cons_self ..)
      omega
    · obtain rfl := mem_singleton.1 hlast
      omega
  · obtain ⟨rest, rfl⟩ := head?_eq_some_iff.1 hfront
    rcases mem_cons.1 hframe with rfl | hrest
    · omega
    · have : frame.frameNo ≤ front.frameNo := (pairwise_cons.1 hdesc).1 frame hrest
      omega

/-! ### The transaction that an injector carries -/

/-- The injector `i` has the frames of a transaction, written and in its buffer, since it was `i₀`. -/
structure Carried (i₀ : SqliteInjector α) (frames : List (Frame α)) (i : SqliteInjector α) :
    Prop where
  db : i.db = i₀.db
  split : frames = i.beginTxn.written ++ i.buffer
  biggest : i.beginTxn.written = [] ∧ i.biggestUncommittedSeen = i₀.biggestUncommittedSeen ∨
    ∃ n, Greatest i.beginTxn.written n ∧
      i.biggestUncommittedSeen = max i₀.biggestUncommittedSeen n

/-- No transaction is open. -/
structure Idle (i : SqliteInjector α) : Prop where
  buffer : i.buffer = []
  isTxn : i.isTxn = false

theorem Idle.rollback (i : SqliteInjector α) : Idle i.rollback := ⟨rfl, rfl⟩

theorem Idle.written {i : SqliteInjector α} (h : Idle i) : i.beginTxn.written = [] := by
  rw [SqliteInjector.beginTxn, h.isTxn]
  rfl

theorem Idle.carried {i : SqliteInjector α} (h : Idle i) : Carried i [] i :=
  ⟨rfl, by rw [h.written, h.buffer]; rfl, .inl ⟨h.written, rfl⟩⟩

namespace Carried

variable {i₀ i : SqliteInjector α} {frame : Frame α}

theorem push (h : Carried i₀ frames i) (frame : Frame α) :
    Carried i₀ (frames ++ [frame]) { i with buffer := i.buffer ++ [frame] } := by
  have hbegin : ({ i with buffer := i.buffer ++ [frame] } : SqliteInjector α).beginTxn.written =
      i.beginTxn.written := by
    unfold SqliteInjector.beginTxn
    split_ifs <;> rfl
  refine ⟨h.db, ?_, ?_⟩
  · rw [hbegin, h.split, append_assoc]
  · rw [hbegin]
    exact h.biggest

theorem ends (h : Carried i₀ frames i) (hends : LargestAtEnds i.buffer)
    (hfront : i.buffer.head? = some front) (hback : i.buffer.getLast? = some back) :
    ∃ n, Greatest frames n ∧
      max i.biggestUncommittedSeen (SqliteInjector.endsNo front back) =
        max i₀.biggestUncommittedSeen n := by
  have hbuffer := greatest_ends hends hfront hback
  rcases h.biggest with ⟨hnil, hbiggest⟩ | ⟨n, hn, hbiggest⟩
  · refine ⟨_, ?_, by rw [hbiggest]⟩
    rw [h.split, hnil, nil_append]
    exact hbuffer
  · refine ⟨max n (SqliteInjector.endsNo front back), ?_, ?_⟩
    · rw [h.split]
      exact hn.append hbuffer
    · rw [hbiggest, Nat.max_assoc]

theorem here (h : Carried i₀ [] i) : Carried i [] i := by
  have hnil := append_eq_nil_iff.1 h.split.symm
  exact ⟨rfl, h.split, .inl ⟨hnil.1, rfl⟩⟩

theorem biggest_lt {t : ℕ} (h : Carried i₀ frames i)
    (hframes : ∀ frame ∈ frames, frame.frameNo < t) (hbiggest : i₀.biggestUncommittedSeen < t) :
    i.biggestUncommittedSeen < t := by
  rcases h.biggest with ⟨-, heq⟩ | ⟨n, ⟨⟨frame, hframe, rfl⟩, -⟩, heq⟩
  · omega
  · have := hframes frame (by rw [h.split]; exact mem_append_left _ hframe)
    omega

/-- How a frame is taken: it is carried, or it commits the transaction, or the injector fails and is
idle again, with or without the transaction. -/
inductive Taken (i₀ : SqliteInjector α) (frames : List (Frame α)) (frame : Frame α)
    (fault : Fault) : SqliteInjector α → Except Unit (Option ℕ) → Prop
  | carried {i : SqliteInjector α} : frame.sizeAfter = 0 → Carried i₀ frames i →
      Taken i₀ frames frame fault i (.ok none)
  | committed {i : SqliteInjector α} {n : ℕ} : frame.sizeAfter ≠ 0 → Greatest frames n →
      i.db = writeFrames i₀.db frames → Idle i → i.biggestUncommittedSeen = 0 →
      Taken i₀ frames frame fault i (.ok (some (max i₀.biggestUncommittedSeen n)))
  | failed {i : SqliteInjector α} : fault = .begin ∨ fault = .inject → i.db = i₀.db → Idle i → i.biggestUncommittedSeen = 0 →
      Taken i₀ frames frame fault i (.error ())
  | unrefreshed {i : SqliteInjector α} : fault = .refresh → frame.sizeAfter ≠ 0 →
      i.db = writeFrames i₀.db frames → Idle i → i.biggestUncommittedSeen = 0 →
      Taken i₀ frames frame fault i (.error ())

/-- **One frame more of a transaction.** -/
theorem inject (h : Carried i₀ frames i) (hord : Ordered (frames ++ [frame])) (fault : Fault) :
    Taken i₀ (frames ++ [frame]) frame fault (i.injectFrame frame fault).1
      (i.injectFrame frame fault).2 := by
  have hpushed := h.push frame
  have hends : LargestAtEnds (i.buffer ++ [frame]) := by
    refine (hord.sublist ?_).largestAtEnds
    rw [h.split, append_assoc]
    exact sublist_append_right ..
  have hlast : (i.buffer ++ [frame]).getLast? = some frame := getLast?_concat ..
  unfold SqliteInjector.injectFrame
  dsimp only
  split_ifs with hflush
  · have hspec := ({ i with buffer := i.buffer ++ [frame] } : SqliteInjector α).flush_spec fault
    generalize SqliteInjector.flush _ fault = r at hspec
    obtain ⟨i', ret⟩ := r
    cases hspec with
    | idle hnil => exact absurd hnil (by simp)
    | partly hfront hback hzero =>
      obtain rfl := Option.some.inj (hlast.symm.trans hback)
      obtain ⟨n, hn, hmax⟩ := hpushed.ends hends hfront hback
      refine .carried hzero ⟨hpushed.db, ?_, .inr ⟨n, ?_, hmax⟩⟩
      · rw [append_nil]
        exact hpushed.split
      · have hn' := hn
        rw [hpushed.split] at hn'
        exact hn'
    | commits hfront hback hne =>
      obtain rfl := Option.some.inj (hlast.symm.trans hback)
      obtain ⟨n, hn, hmax⟩ := hpushed.ends hends hfront hback
      rw [hmax]
      exact .committed hne hn (congrArg₂ writeFrames h.db hpushed.split.symm) ⟨rfl, rfl⟩ rfl
    | fails hfault => exact .failed hfault h.db ⟨rfl, rfl⟩ rfl
    | unrefreshed hback hne hfault =>
      obtain rfl := Option.some.inj (hlast.symm.trans hback)
      exact .unrefreshed hfault hne (congrArg₂ writeFrames h.db hpushed.split.symm) ⟨rfl, rfl⟩ rfl
  · exact .carried (by_contra fun hne => hflush (.inl hne)) hpushed

end Carried

theorem injectFrame_none_ok (i : SqliteInjector α) (frame : Frame α) :
    (i.injectFrame frame .none).2 ≠ .error () := by
  unfold SqliteInjector.injectFrame
  dsimp only
  split_ifs
  · have hspec := ({ i with buffer := i.buffer ++ [frame] } : SqliteInjector α).flush_spec .none
    generalize SqliteInjector.flush _ Fault.none = r at hspec
    obtain ⟨i', ret⟩ := r
    cases hspec with
    | idle | partly | commits => nofun
    | fails hfault | unrefreshed _ _ hfault => exact absurd hfault (by decide)
  · nofun

/-! ### Whole runs -/

theorem Feed.Fed.ends {s : Feed α} (h : s.Fed)
    (hends : LargestAtEnds s.injector.buffer) (hfront : s.injector.buffer.head? = some front)
    (hback : s.injector.buffer.getLast? = some back) :
    Greatest s.since
      (max s.injector.biggestUncommittedSeen (SqliteInjector.endsNo front back)) := by
  obtain ⟨flushed, hsince, hflushed⟩ := h
  have hbuffer := greatest_ends hends hfront hback
  rw [hsince]
  rcases hflushed with ⟨rfl, hzero⟩ | hflushed
  · rw [hzero, Nat.max_eq_right (Nat.zero_le _)]
    exact hbuffer
  · exact hflushed.append hbuffer

theorem Feed.fed_nil {i : SqliteInjector α} (hbuffer : i.buffer = [])
    (hzero : i.biggestUncommittedSeen = 0) : (⟨i, []⟩ : Feed α).Fed :=
  ⟨[], by rw [hbuffer]; rfl, .inl ⟨rfl, hzero⟩⟩

/-- What a call returns, and the frames that are left. -/
structure Returns (offered : List (Frame α)) (r : SqliteInjector α × Except Unit (Option ℕ)) :
    Prop where
  none : r.2 = .ok none → (⟨r.1, offered⟩ : Feed α).Fed
  some : ∀ n, r.2 = .ok (some n) → Greatest offered n
  done : r.2 ≠ .ok Option.none → (⟨r.1, []⟩ : Feed α).Fed

theorem Feed.Fed.flush {s : Feed α} (h : s.Fed) (hends : LargestAtEnds s.injector.buffer)
    (fault : Fault) : Returns s.since (s.injector.flush fault) := by
  have hspec := s.injector.flush_spec fault
  generalize s.injector.flush fault = r at hspec
  obtain ⟨i, ret⟩ := r
  cases hspec with
  | idle hnil =>
    refine ⟨?_, nofun, fun hne => absurd rfl hne⟩
    intro _
    obtain ⟨flushed, hsince, hflushed⟩ := h
    refine ⟨flushed, ?_, ?_⟩
    · show s.since = flushed ++ s.injector.beginTxn.buffer
      rw [SqliteInjector.beginTxn_buffer]
      exact hsince
    · show _ ∧ s.injector.beginTxn.biggestUncommittedSeen = 0 ∨
        Greatest flushed s.injector.beginTxn.biggestUncommittedSeen
      rw [SqliteInjector.beginTxn_biggest]
      exact hflushed
  | partly hfront hback hsize =>
    refine ⟨?_, nofun, fun hne => absurd rfl hne⟩
    intro _
    exact ⟨s.since, (append_nil _).symm, .inr (h.ends hends hfront hback)⟩
  | commits hfront hback hsize =>
    refine ⟨nofun, ?_, fun _ => Feed.fed_nil rfl rfl⟩
    rintro n hn
    cases hn
    exact h.ends hends hfront hback
  | fails | unrefreshed => exact ⟨nofun, nofun, fun _ => Feed.fed_nil rfl rfl⟩

theorem Feed.Fed.call {s : Feed α} (h : s.Fed) {call : Call α} (hcareful : Careful s call) :
    Returns (s.offered call) (call.run s.injector) := by
  cases call with
  | injectFrame frame fault =>
    have hpushed : (⟨{ s.injector with buffer := s.injector.buffer ++ [frame] },
        s.since ++ [frame]⟩ : Feed α).Fed := by
      obtain ⟨flushed, hsince, hflushed⟩ := h
      refine ⟨flushed, ?_, hflushed⟩
      rw [hsince, append_assoc]
    show Returns (s.since ++ [frame]) (s.injector.injectFrame frame fault)
    unfold SqliteInjector.injectFrame
    by_cases hflush :
        frame.sizeAfter ≠ 0 ∨ s.injector.capacity ≤ (s.injector.buffer ++ [frame]).length
    · rw [if_pos hflush]
      exact hpushed.flush (hcareful hflush) fault
    · rw [if_neg hflush]
      exact ⟨fun _ => hpushed, nofun, fun hne => absurd rfl hne⟩
  | flush fault => exact h.flush hcareful fault
  | rollback => exact ⟨fun _ => Feed.fed_nil rfl hcareful, nofun, fun hne => absurd rfl hne⟩

theorem Feed.Fed.step {s s' : Feed α} (h : s.Fed) {call : Call α} (hcareful : Careful s call)
    (hstep : s.step call = some s') : s'.Fed := by
  have hreturns := h.call hcareful
  unfold Feed.step at hstep
  generalize call.run s.injector = r at hreturns hstep
  obtain ⟨i, ret⟩ := r
  rcases ret with _ | (_ | n)
  · cases hstep
    exact hreturns.done nofun
  · cases hstep
    exact hreturns.none rfl
  · cases hstep
    exact hreturns.done nofun

/-- **A commit returns the largest number of the frames since the last commit or rollback**, in every
run in which no rollback comes while a part of a transaction is flushed. -/
theorem commit_greatest {capacity : ℕ} {db : Pages α} {calls : List (Call α)} {s : Feed α}
    (halong : Run.Along Feed.step Careful (.new capacity db) calls)
    (hexec : Run.exec Feed.step (.new capacity db) calls = some s) {call : Call α}
    (hcareful : Careful s call) {n : ℕ} (hcommit : (call.run s.injector).2 = .ok (some n)) :
    Greatest (s.offered call) n := by
  have hfed : s.Fed := Run.exec_invariant (fun s call s' h hok hstep => h.step hok hstep)
    (Feed.fed_nil rfl rfl) halong hexec
  exact (hfed.call hcareful).some n hcommit

section Example

/-- A frame of page 1 with its number for a content. -/
def numbered (frameNo sizeAfter : ℕ) : Frame ℕ := ⟨frameNo, 1, sizeAfter, frameNo⟩

/-- A transaction of a log that is flushed in part and then fails, and the first frame of another
log. -/
def retried : List (Call ℕ) :=
  [.injectFrame (numbered 40 0) .none, .injectFrame (numbered 41 0) .none,
    .injectFrame (numbered 42 0) .none, .flush .inject, .injectFrame (numbered 0 0) .none]

theorem commit_greatest_retried :
    ∃ s, Run.exec Feed.step (.new 2 fun _ => none) retried = some s ∧
      Greatest (s.offered (.injectFrame (numbered 1 1) .none)) 1 := by
  have halong : Run.Along Feed.step Careful (.new 2 fun _ => none) retried := by decide +kernel
  refine ⟨_, rfl, ?_⟩
  exact commit_greatest halong rfl (by decide +kernel) rfl

/-- The same, with a rollback from outside. -/
def restarted : List (Call ℕ) :=
  [.injectFrame (numbered 40 0) .none, .injectFrame (numbered 41 0) .none, .rollback,
    .injectFrame (numbered 0 0) .none]

/-- The commit of the other log has the number of the first. -/
theorem commit_not_greatest :
    ∃ s, Run.exec Feed.step (.new 2 fun _ => none) restarted = some s ∧
      (Call.run s.injector (.injectFrame (numbered 1 1) .none)).2 = .ok (some 41) ∧
      ¬ Greatest (s.offered (.injectFrame (numbered 1 1) .none)) 41 := by
  refine ⟨_, rfl, rfl, ?_⟩
  rintro ⟨⟨frame, hframe, hn⟩, -⟩
  have hmem : frame ∈ [numbered 0 0, numbered 1 1] := hframe
  simp only [List.mem_cons, List.not_mem_nil, or_false] at hmem
  rcases hmem with rfl | rfl <;> cases hn

end Example

end SqlAnywhere.Replication
