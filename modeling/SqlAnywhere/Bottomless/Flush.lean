import Mathlib.Data.List.Range
import SqlAnywhere.Lib.Run

/-!
# The flush task of a bottomless replicator

The replicator counts the frames that are written to the WAL.  A task of its own gives the new ones to
`WalCopier::flush`, in rounds of three steps: it loads the number of the next frame, swaps the number
of the last one sent, and copies the frames between.

* `step` — the steps of the task, among the calls of the replicator
* `counters_of_careful` — the counters are right where no reset falls between a load and its swap
* `Sys` — the task beside a call of `maybe_replicate_wal`
* `replicates_iff` — which WAL files it has copied when it returns
-/

namespace SqlAnywhere.Bottomless

open List

def u32 : ℕ := 4294967296

/-- Where the task stands in its round. -/
inductive Round
  | waiting
  | loaded (nextFrame : ℕ)
  | swapped (start stop : ℕ)

structure Replicator where
  nextFrameNo : ℕ
  lastSentFrameNo : ℕ
  round : Round
  /-- an operation on frame numbers has left the range of `u32` -/
  overflow : Bool
  /-- what was submitted in this generation and not withdrawn by a reset -/
  submitted : List ℕ
  /-- what was in a range given to `flush` since it was submitted -/
  flushed : List ℕ

namespace Replicator

def new : Replicator := ⟨1, 0, .waiting, false, [], []⟩

def resetFrames (r : Replicator) (frameNo : ℕ) : Replicator :=
  { r with
    nextFrameNo := (frameNo + 1) % u32
    lastSentFrameNo := min r.lastSentFrameNo frameNo
    overflow := r.overflow || decide (u32 ≤ frameNo + 1)
    submitted := r.submitted.filter (· ≤ frameNo)
    flushed := r.flushed.filter (· ≤ frameNo) }

def submitFrames (r : Replicator) (count : ℕ) : Replicator :=
  { r with
    nextFrameNo := (r.nextFrameNo + count) % u32
    -- `prev + frame_count - 1` and `most_recent - last_sent`
    overflow := r.overflow || decide (u32 ≤ r.nextFrameNo + count) ||
      decide (r.nextFrameNo + count < r.lastSentFrameNo + 1)
    submitted := r.submitted ++ range' r.nextFrameNo count
    flushed := r.flushed.filter (· < r.nextFrameNo) }

inductive Action
  | load
  | swap
  | copy
  | setGeneration
  | registerLastValidFrame (frame : ℕ)
  | submitFrames (count : ℕ)

def step (r : Replicator) : Action → Option Replicator
  | .load =>
    match r.round with
    | .waiting => some { r with round := .loaded r.nextFrameNo }
    | _ => none
  | .swap =>
    match r.round with
    | .loaded n => some
      { r with
        lastSentFrameNo := n - 1, round := .swapped (r.lastSentFrameNo + 1) n
        overflow := r.overflow || n == 0 }
    | _ => none
  | .copy =>
    match r.round with
    | .swapped start stop =>
      some { r with round := .waiting, flushed := r.flushed ++ range' start (stop - start) }
    | _ => none
  | .setGeneration =>
    some { r.resetFrames 0 with submitted := [], flushed := [] }
  | .registerLastValidFrame frame =>
    some (if frame = r.nextFrameNo - 1 then r else r.resetFrames frame)
  | .submitFrames count => some (r.submitFrames count)

/-- No reset falls between a load and its swap, and frame numbers are below the last one. -/
def Careful (r : Replicator) : Action → Prop
  | .setGeneration => ∀ n, r.round ≠ .loaded n
  | .registerLastValidFrame frame => (∀ n, r.round ≠ .loaded n) ∧ frame + 1 < u32
  | .submitFrames count => r.nextFrameNo + count < u32
  | _ => True

structure Inv (r : Replicator) : Prop where
  sent : r.lastSentFrameNo < r.nextFrameNo
  loaded : ∀ n, r.round = .loaded n → r.lastSentFrameNo < n ∧ n ≤ r.nextFrameNo
  overflow : r.overflow = false
  submitted : ∀ f ∈ r.submitted, f < r.nextFrameNo
  flushed : ∀ f ∈ r.submitted, f ≤ r.lastSentFrameNo →
    f ∈ r.flushed ∨ ∃ start stop, r.round = .swapped start stop ∧ start ≤ f ∧ f < stop

variable {b : ℕ} {r r' : Replicator} {a : Action} {actions : List Action}

theorem Inv.reset (h : Inv r) (hround : ∀ n, r.round ≠ .loaded n) {frame : ℕ}
    (hframe : frame + 1 < u32) : Inv (r.resetFrames frame) where
  sent := by
    simp only [resetFrames, Nat.mod_eq_of_lt hframe]
    omega
  loaded n hn := absurd hn (hround n)
  overflow := by simpa [resetFrames, h.overflow] using hframe
  submitted f hf := by
    simp only [resetFrames, mem_filter, decide_eq_true_eq] at hf
    simpa [resetFrames, Nat.mod_eq_of_lt hframe] using Nat.lt_succ_of_le hf.2
  flushed f hf hsent := by
    simp only [resetFrames, mem_filter, decide_eq_true_eq] at hf
    rcases h.flushed f hf.1 (hsent.trans (Nat.min_le_left ..)) with hin | hcopying
    · exact .inl (by simp [resetFrames, hin, hf.2])
    · exact .inr hcopying

theorem Inv.submit (h : Inv r) {count : ℕ} (hcount : r.nextFrameNo + count < u32) :
    Inv (r.submitFrames count) := by
  have hsent := h.sent
  refine ⟨?_, fun n hn => ?_, ?_, fun f hf => ?_, fun f hf hle => ?_⟩
  all_goals simp only [submitFrames, Nat.mod_eq_of_lt hcount, mem_append, mem_range'_1] at *
  · omega
  · have := h.loaded n hn
    omega
  · simp [h.overflow]
    omega
  · rcases hf with hf | hf
    · have := h.submitted f hf
      omega
    · exact hf.2
  · -- what is new is above what was sent
    rcases hf with hf | hf
    · simpa [h.submitted f hf] using h.flushed f hf hle
    · omega

theorem Inv.step (h : Inv r) (hok : Careful r a) (hstep : step r a = some r') : Inv r' := by
  cases a <;> simp only [Replicator.step] at hstep
  case load =>
    split at hstep <;> cases hstep
    rename_i hround
    refine { h with loaded := ?_, flushed := fun f hf hle => ?_ }
    · rintro n ⟨⟩
      exact ⟨h.sent, Nat.le_refl _⟩
    · simpa [hround] using h.flushed f hf hle
  case swap =>
    split at hstep <;> cases hstep
    rename_i n hround
    have hn := h.loaded n hround
    refine ⟨by simp only; omega, by rintro _ ⟨⟩, ?_, h.submitted, fun f hf hle => ?_⟩
    · simp [h.overflow]
      omega
    · by_cases hold : f ≤ r.lastSentFrameNo
      · exact .inl (by simpa [hround] using h.flushed f hf hold)
      · exact .inr ⟨_, _, rfl, by omega, by simp only at hle; omega⟩
  case copy =>
    split at hstep <;> cases hstep
    rename_i start stop hround
    refine { h with loaded := by rintro _ ⟨⟩, flushed := fun f hf hle => .inl ?_ }
    rw [mem_append, mem_range'_1]
    have : f ∈ r.flushed ∨ start ≤ f ∧ f < stop := by simpa [hround] using h.flushed f hf hle
    exact this.imp_right (by omega)
  case setGeneration =>
    cases hstep
    have hreset : Inv (r.resetFrames 0) := h.reset hok (by decide)
    exact { hreset with submitted := by rintro _ ⟨⟩, flushed := by rintro _ ⟨⟩ }
  case registerLastValidFrame frame =>
    split_ifs at hstep <;> cases hstep
    · exact h
    · exact h.reset hok.1 hok.2
  case submitFrames count =>
    cases hstep
    exact h.submit hok

theorem exec_round (hround : r.round = .waiting) : ∃ r',
    Run.exec step r [.load, .swap, .copy] = some r' ∧ r'.round = .waiting ∧
      r'.nextFrameNo = r.nextFrameNo ∧ r'.lastSentFrameNo = r.nextFrameNo - 1 := by
  simp only [Run.exec, step, hround, Option.bind_some]
  exact ⟨_, rfl, rfl, rfl, rfl⟩

/-- **The counters of the flush task.** In every run in which no reset falls between a load and its
swap, the last frame sent is before the next one, no subtraction underflows, and after a round
without another step in between every frame submitted has been given to `flush`. -/
theorem counters_of_careful (hok : Run.Along step Careful new actions)
    (hrun : Run.exec step new actions = some r) :
    r.lastSentFrameNo ≤ r.nextFrameNo - 1 ∧ r.overflow = false ∧
      ∀ r', Run.exec step r [.load, .swap, .copy] = some r' →
        ∀ f ∈ r'.submitted, f ∈ r'.flushed := by
  have hnew : Inv new := ⟨by decide, by rintro _ ⟨⟩, rfl, by rintro _ ⟨⟩, by rintro _ ⟨⟩⟩
  have h : Inv r := Run.exec_invariant (fun _ _ _ h hok => h.step hok) hnew hok hrun
  refine ⟨Nat.le_sub_one_of_lt h.sent, h.overflow, fun r' hround f hf => ?_⟩
  have hcareful : Run.Along step Careful r [.load, .swap, .copy] := by
    simp [Run.Along, Careful]
  have h' : Inv r' := Run.exec_invariant (fun _ _ _ h hok => h.step hok) h hcareful hround
  cases hwaiting : r.round with
  | waiting =>
    obtain ⟨r₁, hrun₁, hw, hnext, hsent⟩ := exec_round hwaiting
    obtain rfl : r₁ = r' := Option.some.inj (hrun₁.symm.trans hround)
    have := h'.submitted f hf
    simpa [hw] using h'.flushed f hf (by omega)
  | loaded | swapped => simp [Run.exec, step, hwaiting] at hround

/-- Five frames are submitted, and two more while they are flushed. -/
def overlapping : List Action := [.submitFrames 5, .load, .swap, .submitFrames 2, .copy]

theorem counters_of_careful_overlapping : ∃ r r', Run.exec step new overlapping = some r ∧
    Run.exec step r [.load, .swap, .copy] = some r' ∧ 7 ∈ r'.submitted ∧ 7 ∈ r'.flushed := by
  have hok : Run.Along step Careful new overlapping := by
    simp [overlapping, Run.Along, step, Careful, submitFrames, new, u32]
  exact ⟨_, _, rfl, rfl, by decide, (counters_of_careful hok rfl).2.2 _ rfl 7 (by decide)⟩

/-- **A reset between the load and the swap**: the last frame sent is above the next one, the first
frame of the new generation underflows, and the next round does not flush it. -/
theorem reset_in_round : ∃ r r', Run.exec step new
      [.submitFrames 5, .load, .setGeneration, .swap] = some r ∧
    r.nextFrameNo - 1 < r.lastSentFrameNo ∧
    Run.exec step r [.copy, .submitFrames 1, .load, .swap, .copy] = some r' ∧
    r'.overflow = true ∧ 1 ∈ r'.submitted ∧ 1 ∉ r'.flushed :=
  ⟨_, _, rfl, by decide, rfl, by decide, by decide, by decide⟩

/-! ### The WAL that is there at the start -/

/-- The first frames of the batches. -/
def starts (batch start stop : ℕ) : List ℕ := range' start ((stop - start + batch - 1) / batch) batch

/-- The frames that `WalCopier::flush` copies, batch by batch, where it succeeds; `none` where
`step_by` panics or `start + batch` leaves its range. -/
def flush (batch start stop : ℕ) : Option (List ℕ) :=
  if batch = 0 ∨ ∃ first ∈ starts batch start stop, u32 ≤ first + batch % u32 then none
  else some ((starts batch start stop).flatMap
    fun first => range' first (min (first + batch % u32) stop - first))

/-- How many complete frames a WAL file of this length has. -/
def frames (len pageSize : ℕ) : ℕ := (len - 32) / (24 + pageSize)

/-- Where `maybe_replicate_wal` stands. -/
inductive Call
  | counted (frameCount : ℕ)
  | waiting (frameNo : ℕ)
  | returned

/-- The flush task beside a call of `maybe_replicate_wal`. -/
structure Sys where
  r : Replicator
  call : Call
  /-- `last_committed_frame_no` -/
  committed : ℕ
  /-- what is in the directory of the generation -/
  copied : List ℕ
  /-- an operation of the call or of `flush` has left its range or panicked -/
  failed : Bool

/-- What the task does next.  It is never held up: it wakes for a request or for the interval. -/
def nextAction : Round → Action
  | .waiting => .load
  | .loaded _ => .swap
  | .swapped _ _ => .copy

namespace Sys

/-- The call as it begins, in a new generation of a new replicator. -/
def start (len pageSize : ℕ) : Sys :=
  ⟨.new, if len < 32 then .returned else .counted (frames len pageSize % u32), 0, [], false⟩

inductive Event
  | call
  | task

def step (batch : ℕ) (s : Sys) : Event → Option Sys
  | .call =>
    match s.call with
    | .counted count =>
      some { s with
        r := s.r.submitFrames count
        call := .waiting ((count + u32 - 1) % u32), failed := s.failed || count == 0 }
    | .waiting frameNo =>
      -- `pending_frames` at the end
      if frameNo ≤ s.committed then
        some { s with
          call := .returned
          failed := s.failed || decide (s.r.nextFrameNo < s.r.lastSentFrameNo + 1) }
      else none
    | .returned => none
  | .task =>
    match s.r.round, Replicator.step s.r (nextAction s.r.round) with
    | .swapped start stop, some r =>
      if stop ≤ start then some { s with r }
      else match flush batch start stop with
        | some frames => some { s with r, copied := s.copied ++ frames, committed := stop - 1 }
        | none => some { s with r, failed := true }
    | _, some r => some { s with r }
    | _, none => none

/-- Nothing has left its range; the wait is over after a few more steps of the task; and what is in
the file has been copied when the call returns. -/
structure Right (batch count : ℕ) (s : Sys) : Prop where
  sound : s.failed = false ∧ s.r.overflow = false
  ends : ∀ frameNo, s.call = .waiting frameNo → ∃ n ≤ 5, ∃ s',
    Run.exec (step batch) s (replicate n .task) = some s' ∧ frameNo ≤ s'.committed
  copied : s.call = .returned → ∀ f, 0 < f → f ≤ count → f ∈ s.copied

end Sys

/-- The first frame of the last batch. -/
def lastStart (batch count : ℕ) : ℕ := 1 + (count - 1) / batch * batch

/-- The last batch ends above the last frame, within the range of `u32`. -/
def BatchFits (batch count : ℕ) : Prop :=
  0 < batch ∧ count < lastStart batch count + batch % u32 ∧ lastStart batch count + batch % u32 < u32

instance (batch count : ℕ) : Decidable (BatchFits batch count) := inferInstanceAs (Decidable (_ ∧ _))

theorem lt_of_mem_flush {start stop f : ℕ} {copied : List ℕ} (h : flush b start stop = some copied)
    (hf : f ∈ copied) : f < stop := by
  unfold flush at h
  split_ifs at h
  cases h
  obtain ⟨first, -, hin⟩ := mem_flatMap.1 hf
  rw [mem_range'_1] at hin
  omega

theorem mem_starts {count first : ℕ} (hb : 0 < b) (hcount : 0 < count) :
    first ∈ starts b 1 (count + 1) ↔ ∃ i ≤ (count - 1) / b, first = 1 + b * i := by
  have hdiv : (count + 1 - 1 + b - 1) / b = (count - 1) / b + 1 := by
    rw [← Nat.add_div_right _ hb]
    congr 1
    omega
  simp only [starts, hdiv, mem_range', Nat.lt_succ_iff]

/-- Only the last batch can leave the range, or end too early. -/
theorem flush_covers_iff {count : ℕ} (hcount : 0 < count) :
    (∃ copied, flush b 1 (count + 1) = some copied ∧ ∀ f, 0 < f → f ≤ count → f ∈ copied) ↔
      BatchFits b count := by
  rcases Nat.eq_zero_or_pos b with rfl | hb
  · simp [flush, BatchFits]
  have hlast : lastStart b count ∈ starts b 1 (count + 1) :=
    (mem_starts hb hcount).2 ⟨_, Nat.le_refl _, by rw [lastStart, Nat.mul_comm]⟩
  have hmax : ∀ first ∈ starts b 1 (count + 1), first ≤ lastStart b count := by
    intro first hfirst
    obtain ⟨i, hi, rfl⟩ := (mem_starts hb hcount).1 hfirst
    have := Nat.mul_le_mul_left b hi
    rw [lastStart, Nat.mul_comm _ b]
    omega
  simp only [flush, BatchFits]
  split_ifs with hpanic
  · refine iff_of_false (by rintro ⟨_, ⟨⟩, _⟩) fun ⟨_, _, hlt⟩ => ?_
    obtain hzero | ⟨first, hfirst, hle⟩ := hpanic
    · omega
    · have := hmax first hfirst
      omega
  · have hrange := not_or.1 hpanic |>.2
    simp only [Option.some_inj, exists_eq_left', mem_flatMap, mem_range'_1]
    constructor
    · intro hall
      obtain ⟨first, hfirst, hf⟩ := hall count hcount (Nat.le_refl _)
      have := hmax first hfirst
      exact ⟨hb, by omega, not_le.1 fun hle => hrange ⟨_, hlast, hle⟩⟩
    · rintro ⟨_, hend, hlt⟩ f hf hle
      have hdiv := Nat.div_add_mod (f - 1) b
      have hmod := Nat.mod_lt (f - 1) hb
      have hi : (f - 1) / b ≤ (count - 1) / b := Nat.div_le_div_right (by omega)
      refine ⟨_, (mem_starts hb hcount).2 ⟨_, hi, rfl⟩, by omega, ?_⟩
      rcases hi.eq_or_lt with heq | hbefore
      · -- the frame is in the last batch
        have : 1 + b * ((f - 1) / b) = lastStart b count := by rw [heq, lastStart, Nat.mul_comm]
        omega
      · -- there is a batch after it, so that a whole one fits
        have hbelow := Nat.mul_le_mul_left b (Nat.succ_le_of_lt hbefore)
        have hsmall : b < u32 := by
          rw [lastStart, Nat.mul_comm _ b] at hlt
          rw [Nat.succ_eq_add_one, Nat.mul_add] at hbelow
          omega
        rw [Nat.mod_eq_of_lt hsmall]
        omega

namespace Sys

/-- No frame has been submitted. -/
structure Idle (s : Sys) : Prop where
  next : s.r.nextFrameNo = 1
  sent : s.r.lastSentFrameNo = 0
  committed : s.committed = 0
  round : s.r.round = .waiting ∨ s.r.round = .loaded 1 ∨ s.r.round = .swapped 1 1

/-- How far the call and the task have come together, for a WAL of `count` frames. -/
inductive Stage (count : ℕ) (s : Sys) : Prop
  | idle (call : s.call = .counted count) (idle : Idle s)
  | submitted (call : s.call = .waiting (count - 1)) (next : s.r.nextFrameNo = count + 1)
      (sent : s.r.lastSentFrameNo = 0) (committed : s.committed = 0)
      (round : s.r.round = .waiting ∨ s.r.round = .loaded 1 ∨ s.r.round = .swapped 1 1 ∨
        s.r.round = .loaded (count + 1))
  | copying (call : s.call = .waiting (count - 1)) (next : s.r.nextFrameNo = count + 1)
      (sent : s.r.lastSentFrameNo = count) (committed : s.committed = 0)
      (round : s.r.round = .swapped 1 (count + 1))
  | copied (call : s.call = .waiting (count - 1) ∨ s.call = .returned)
      (next : s.r.nextFrameNo = count + 1) (sent : s.r.lastSentFrameNo = count)
      (committed : s.committed = count)
      (round : s.r.round = .waiting ∨ s.r.round = .loaded (count + 1) ∨
        s.r.round = .swapped (count + 1) (count + 1))
      (all : ∀ f, 0 < f → f ≤ count → f ∈ s.copied)

structure Inv (count : ℕ) (s : Sys) : Prop where
  failed : s.failed = false
  overflow : s.r.overflow = false
  stage : Stage count s

/-- How many steps of the task there are to the end of the wait. -/
def left (s : Sys) : ℕ :=
  if 0 < s.committed then 0
  else match s.r.round with
    | .waiting => 3
    | .loaded n => if n = 1 then 5 else 2
    | .swapped _ stop => if stop = 1 then 4 else 1

variable {count : ℕ} {s s' : Sys}

theorem left_pos (h : s.committed = 0) : 0 < s.left := by
  simp only [left, h, lt_irrefl, if_false]
  split <;> [skip; split_ifs; split_ifs] <;> decide

theorem left_le : s.left ≤ 5 := by
  unfold left
  split_ifs
  · decide
  · split <;> [skip; split_ifs; split_ifs] <;> decide

theorem step_task_copy {start stop : ℕ} {new : List ℕ} (hround : s.r.round = .swapped start stop)
    (hlt : start < stop) (hflush : flush b start stop = some new) :
    step b s .task = some { s with
      r := { s.r with round := .waiting, flushed := s.r.flushed ++ range' start (stop - start) }
      copied := s.copied ++ new, committed := stop - 1 } := by
  simp [step, nextAction, Replicator.step, hround, hflush, not_le.2 hlt]

theorem step_call_waiting {frameNo : ℕ} (hcall : s.call = .waiting frameNo)
    (hle : frameNo ≤ s.committed) :
    ∃ s', step b s .call = some s' ∧ s'.call = .returned ∧ s'.copied = s.copied := by
  simp only [step, hcall, if_pos hle]
  exact ⟨_, rfl, rfl, rfl⟩

theorem Idle.task (h : Idle s) : ∃ r', step b s .task = some { s with r := r' } ∧
    Idle { s with r := r' } ∧ r'.overflow = s.r.overflow := by
  obtain ⟨next, sent, committed, round⟩ := h
  simp only [step]
  rcases round with round | round | round <;> simp only [round, nextAction, Replicator.step]
  · exact ⟨_, rfl, ⟨next, sent, committed, .inr (.inl (by rw [next]))⟩, rfl⟩
  · exact ⟨_, rfl, ⟨next, rfl, committed, .inr (.inr (by rw [sent]))⟩, by simp⟩
  · exact ⟨_, if_pos (Nat.le_refl 1), ⟨next, sent, committed, .inl rfl⟩, rfl⟩

theorem wrapping_pred (hpos : 0 < count) (hlt : count < u32) :
    (count + u32 - 1) % u32 = count - 1 := by
  rw [show count + u32 - 1 = count - 1 + u32 by omega, Nat.add_mod_right, Nat.mod_eq_of_lt (by omega)]

theorem Inv.call (h : Inv count s) (htwo : 2 ≤ count) (hcount : count + 1 < u32)
    (hstep : step b s .call = some s') : Inv count s' := by
  obtain ⟨hfailed, hoverflow, hstage⟩ := h
  simp only [step] at hstep
  cases hstage with
  | idle call idle =>
    obtain ⟨next, sent, committed, round⟩ := idle
    rw [call] at hstep
    cases hstep
    have hwait : Call.waiting ((count + u32 - 1) % u32) = .waiting (count - 1) := by
      rw [wrapping_pred (by omega) (by omega)]
    refine ⟨by simp [hfailed]; omega, ?_, .submitted hwait ?_ sent committed ?_⟩
    · simp [submitFrames, hoverflow, next, sent]
      omega
    · change (s.r.nextFrameNo + count) % u32 = count + 1
      rw [next, Nat.add_comm, Nat.mod_eq_of_lt hcount]
    · rcases round with h | h | h <;> simp [submitFrames, h]
  | submitted call next sent committed round | copying call next sent committed round =>
    simp only [call, committed] at hstep
    rw [if_neg (by omega)] at hstep
    cases hstep
  | copied call next sent committed round all =>
    rcases call with call | call <;> simp only [call] at hstep
    · split_ifs at hstep
      cases hstep
      refine ⟨?_, hoverflow, .copied (.inr rfl) next sent committed round all⟩
      simp [hfailed, next, sent]
    · cases hstep

/-- The task can always go on, and each of its steps brings the end of the wait nearer. -/
theorem Inv.task (h : Inv count s) (htwo : 2 ≤ count) (hfits : BatchFits b count) :
    ∃ s', step b s .task = some s' ∧ Inv count s' ∧ s'.call = s.call ∧
      (s.call = .waiting (count - 1) → s'.left ≤ s.left - 1) := by
  obtain ⟨⟨nextFrameNo, lastSentFrameNo, round, overflow, submitted, flushed⟩, call, committed,
    copied, failed⟩ := s
  obtain ⟨hfailed, hoverflow, hstage⟩ := h
  simp only at hfailed hoverflow
  subst hfailed hoverflow
  have hpos : count ≠ 0 := by omega
  cases hstage with
  | idle call idle =>
    obtain ⟨r', hstep, hidle, hsame⟩ := idle.task (b := b)
    exact ⟨_, hstep, ⟨rfl, hsame, .idle call hidle⟩, rfl, fun hwait => by cases call.symm.trans hwait⟩
  | submitted call next sent committed round =>
    simp only at call next sent committed round
    subst call next sent committed
    rcases round with rfl | rfl | rfl | rfl
    · exact ⟨_, rfl, ⟨rfl, rfl, .submitted rfl rfl rfl rfl (.inr (.inr (.inr rfl)))⟩, rfl,
        fun _ => by simp [left, hpos]⟩
    · exact ⟨_, rfl, ⟨rfl, rfl, .submitted rfl rfl rfl rfl (.inr (.inr (.inl rfl)))⟩, rfl,
        fun _ => Nat.le_refl _⟩
    · exact ⟨_, rfl, ⟨rfl, rfl, .submitted rfl rfl rfl rfl (.inl rfl)⟩, rfl, fun _ => Nat.le_refl _⟩
    · exact ⟨_, rfl, ⟨rfl, rfl, .copying rfl rfl rfl rfl rfl⟩, rfl, fun _ => by simp [left, hpos]⟩
  | copying call next sent committed round =>
    simp only at call next sent committed round
    subst round
    obtain ⟨new, hflush, hall⟩ := (flush_covers_iff (by omega)).2 hfits
    refine ⟨_, step_task_copy rfl (by omega) hflush,
      ⟨rfl, rfl, .copied (.inl call) next sent rfl (.inl rfl) fun f hf hle => ?_⟩, rfl, fun _ => ?_⟩
    · exact mem_append_right _ (hall f hf hle)
    · simp [left, Nat.pos_of_ne_zero hpos]
  | copied call next sent committed round all =>
    simp only at call next sent committed round all
    have hleft : ∀ s : Sys, s.committed = count → s.left ≤ 0 := fun s hs => by
      simp [left, hs, Nat.pos_of_ne_zero hpos]
    subst next
    rcases round with rfl | rfl | rfl
    · exact ⟨_, rfl, ⟨rfl, rfl, .copied call rfl sent committed (.inr (.inl rfl)) all⟩, rfl,
        fun _ => (hleft _ committed).trans (Nat.zero_le _)⟩
    · refine ⟨_, rfl, ⟨rfl, rfl, .copied call rfl rfl committed (.inr (.inr ?_)) all⟩, rfl,
        fun _ => (hleft _ committed).trans (Nat.zero_le _)⟩
      rw [sent]
    · exact ⟨_, if_pos (Nat.le_refl _), ⟨rfl, rfl, .copied call rfl sent committed (.inl rfl) all⟩,
        rfl, fun _ => (hleft _ committed).trans (Nat.zero_le _)⟩

/-- While frames are to be committed there are steps left. -/
theorem Inv.committed (h : Inv count s) (hcall : s.call = .waiting (count - 1)) (hleft : s.left = 0) :
    s.committed = count := by
  cases h.stage with
  | idle call => simp [call] at hcall
  | submitted call next sent committed round | copying call next sent committed round =>
    exact absurd hleft (left_pos committed).ne'
  | copied call next sent committed => exact committed

/-- The wait ends after as many steps of the task as are left. -/
theorem Inv.ends (h : Inv count s) (htwo : 2 ≤ count) (hfits : BatchFits b count)
    (hcall : s.call = .waiting (count - 1)) : ∀ n, s.left ≤ n →
    ∃ s', Run.exec (step b) s (replicate n .task) = some s' ∧ count - 1 ≤ s'.committed := by
  intro n
  induction n generalizing s with
  | zero =>
    intro hleft
    have := h.committed hcall (Nat.le_zero.1 hleft)
    exact ⟨s, rfl, by omega⟩
  | succ n ih =>
    intro hleft
    obtain ⟨s₁, hstep, hinv, hsame, hnear⟩ := h.task (b := b) htwo hfits
    obtain ⟨s', hrun, hdone⟩ := ih hinv (hsame.trans hcall) ((hnear hcall).trans (by omega))
    exact ⟨s', by rw [replicate_succ, Run.exec, hstep]; exact hrun, hdone⟩

theorem Inv.right (h : Inv count s) (htwo : 2 ≤ count) (hfits : BatchFits b count) :
    s.Right b count where
  sound := ⟨h.failed, h.overflow⟩
  ends frameNo hcall := by
    have hwait : frameNo = count - 1 := by
      cases h.stage with
      | idle call => simp [call] at hcall
      | submitted call | copying call | copied call => simp_all
    subst hwait
    exact ⟨s.left, left_le, h.ends htwo hfits hcall _ (Nat.le_refl _)⟩
  copied hcall := by
    cases h.stage with
    | copied _ _ _ _ _ all => exact all
    | idle call | submitted call | copying call => simp [call] at hcall

/-- Where there is no file the call has returned and nothing is submitted. -/
theorem right_of_absent {events : List Event} {len pageSize : ℕ} (hlen : len < 32)
    (hrun : Run.exec (step b) (start len pageSize) events = some s) :
    s.Right b (frames len pageSize) := by
  have hstart : (start len pageSize).call = .returned := if_pos hlen
  obtain ⟨hcall, hidle, hfailed, hoverflow⟩ : s.call = .returned ∧ Idle s ∧ s.failed = false ∧
      s.r.overflow = false := by
    refine Run.exec_keeps (I := fun s => s.call = .returned ∧ Idle s ∧ s.failed = false ∧
      s.r.overflow = false) (fun s event s' h hstep => ?_)
        ⟨hstart, ⟨rfl, rfl, rfl, .inl rfl⟩, rfl, rfl⟩ hrun
    obtain ⟨hcall, hidle, hfailed, hoverflow⟩ := h
    cases event with
    | call => simp [step, hcall] at hstep
    | task =>
      obtain ⟨r', heq, hidle', hsame⟩ := hidle.task (b := b)
      obtain rfl := Option.some.inj (heq.symm.trans hstep)
      exact ⟨hcall, hidle', hfailed, hsame.trans hoverflow⟩
  refine ⟨⟨hfailed, hoverflow⟩, fun frameNo hwait => by simp [hcall] at hwait, fun _ f hf hle => ?_⟩
  have : frames len pageSize = 0 := by simp [frames, Nat.sub_eq_zero_of_le hlen.le]
  omega

section

variable {len pageSize : ℕ} (hlen : ¬ len < 32) (hcount : frames len pageSize % u32 = count)
include hlen hcount

/-- A call that begins with one round of the task. -/
theorem exec_one_round (hpos : 0 < count) (hfit : count + 1 < u32) : ∃ s,
    Run.exec (step b) (start len pageSize) [.call, .task, .task] = some s ∧
      s.r.round = .swapped 1 (count + 1) ∧ s.call = .waiting (count - 1) ∧ s.copied = [] := by
  have hmod : (1 + count) % u32 = count + 1 := by rw [Nat.add_comm, Nat.mod_eq_of_lt hfit]
  simp only [Run.exec, step, start, if_neg hlen, hcount, new, submitFrames, nextAction,
    Replicator.step, Option.bind_some, hmod, wrapping_pred hpos (by omega : count < u32)]
  exact ⟨_, rfl, rfl, rfl, rfl⟩

variable (h : ∀ events s, Run.exec (step b) (start len pageSize) events = some s →
  s.Right b (frames len pageSize))
include h

/-- The subtraction, the addition and the wait for one frame less, one after the other. -/
theorem two_le_of_right : 2 ≤ count ∧ count + 1 < u32 := by
  have hstart : (start len pageSize).call = .counted count := hcount ▸ if_neg hlen
  have hcall : ∃ s, Run.exec (step b) (start len pageSize) [.call] = some s ∧
      s.failed = (count == 0) ∧ (s.r.overflow = false → 1 + count < u32) := by
    simp only [Run.exec, step, hstart]
    refine ⟨_, rfl, rfl, fun hfalse => ?_⟩
    simp only [submitFrames, Bool.or_eq_false_iff, decide_eq_false_iff_not] at hfalse
    exact not_le.1 hfalse.1.2
  obtain ⟨s, hrun, hzero, hfit⟩ := hcall
  obtain ⟨hsome, hbelow⟩ := (h _ _ hrun).sound
  rw [hzero, beq_eq_false_iff_ne] at hsome
  have hbelow := hfit hbelow
  refine ⟨by_contra fun hlt => ?_, by omega⟩
  obtain rfl : count = 1 := by omega
  have hreturn : ∃ s, Run.exec (step b) (start len pageSize) [.call, .call] = some s ∧
      s.call = .returned ∧ s.copied = [] := by
    simp only [Run.exec, step, hstart]
    exact ⟨_, rfl, rfl, rfl⟩
  obtain ⟨s, hrun, hret, hnone⟩ := hreturn
  have := (h _ _ hrun).copied hret 1 Nat.one_pos (hcount ▸ Nat.mod_le _ _)
  simp [hnone] at this

/-- The first round copies all that is in the file. -/
theorem fits_of_right (htwo : 2 ≤ count) (hfit : count + 1 < u32) :
    frames len pageSize = count ∧ BatchFits b count := by
  have hle : count ≤ frames len pageSize := hcount ▸ Nat.mod_le _ _
  obtain ⟨s, hrun, hround, hcall, hnone⟩ := exec_one_round (b := b) hlen hcount (by omega) hfit
  cases hflush : flush b 1 (count + 1) with
  | none =>
    have hfail : ∃ s', step b s .task = some s' ∧ s'.failed = true := by
      simp only [step, nextAction, Replicator.step, hround, hflush]
      rw [if_neg (by omega)]
      exact ⟨_, rfl, rfl⟩
    obtain ⟨s', hstep, hfailed⟩ := hfail
    have hsound := (h ([.call, .task, .task] ++ [.task]) s'
      (Run.exec_trans hrun (Run.exec_cons_iff.2 ⟨s', hstep, rfl⟩))).sound.1
    cases hfailed.symm.trans hsound
  | some new =>
    have hcopy := step_task_copy hround (by omega) hflush
    obtain ⟨s', hreturn, hret, hnew⟩ := step_call_waiting (b := b)
      (s := ⟨_, s.call, count + 1 - 1, s.copied ++ new, s.failed⟩) hcall (by simp only; omega)
    have hall := (h ([.call, .task, .task] ++ [.task, .call]) s' (Run.exec_trans hrun
      (Run.exec_cons_iff.2 ⟨_, hcopy, Run.exec_cons_iff.2 ⟨s', hreturn, rfl⟩⟩))).copied hret
    rw [hnew, hnone, nil_append] at hall
    have hsame : frames len pageSize = count := by
      have := lt_of_mem_flush hflush (hall _ (by omega) (Nat.le_refl _))
      omega
    rw [hsame] at hall
    exact ⟨hsame, (flush_covers_iff (by omega)).1 ⟨new, hflush, hall⟩⟩

end

end Sys

/-- **Which WAL files `maybe_replicate_wal` has copied when it returns**: those that are not there,
and those of two frames or more, as far as a `u32` counts them and the batches fit. -/
theorem replicates_iff (batch len pageSize : ℕ) :
    (∀ events s, Run.exec (Sys.step batch) (.start len pageSize) events = some s →
        s.Right batch (frames len pageSize)) ↔
      len < 32 ∨ 2 ≤ frames len pageSize ∧ frames len pageSize + 1 < u32 ∧
        BatchFits batch (frames len pageSize) := by
  by_cases hlen : len < 32
  · exact iff_of_true (fun _ _ => Sys.right_of_absent hlen) (.inl hlen)
  rw [or_iff_right hlen]
  constructor
  · intro h
    obtain ⟨htwo, hfit⟩ := Sys.two_le_of_right hlen rfl h
    obtain ⟨hsame, hfits⟩ := Sys.fits_of_right hlen rfl h htwo hfit
    rw [hsame]
    exact ⟨htwo, hfit, hfits⟩
  · rintro ⟨htwo, hcount, hfits⟩ events s hrun
    refine Sys.Inv.right ?_ htwo hfits
    refine Run.exec_keeps (fun s event s' hinv hstep => ?_)
      ⟨rfl, rfl, .idle ?_ ⟨rfl, rfl, rfl, .inl rfl⟩⟩ hrun
    · cases event with
      | call => exact hinv.call htwo hcount hstep
      | task =>
        obtain ⟨s₁, heq, hinv', -⟩ := hinv.task htwo hfits
        exact Option.some.inj (heq.symm.trans hstep) ▸ hinv'
    · rw [show (Sys.start len pageSize).call = _ from if_neg hlen, Nat.mod_eq_of_lt (by omega)]

theorem replicates_two : frames 8272 4096 = 2 ∧ ∀ events s,
    Run.exec (Sys.step 1) (.start 8272 4096) events = some s → s.Right 1 (frames 8272 4096) :=
  ⟨rfl, (replicates_iff 1 8272 4096).2 (by decide)⟩

/-- **A WAL without a frame underflows, one frame is not waited for**, and with batches of
`2^32 - 1` the task leaves its range with two. -/
theorem frames_not_replicated :
    (∃ s, Run.exec (Sys.step 1) (.start 32 4096) [.call] = some s ∧ s.failed = true) ∧
    (∃ s, Run.exec (Sys.step 1) (.start 4152 4096) [.call, .call] = some s ∧
      frames 4152 4096 = 1 ∧ s.call = .returned ∧ s.copied = []) ∧
    ∃ s, Run.exec (Sys.step 4294967295) (.start 8272 4096) [.call, .task, .task, .task] = some s ∧
      s.failed = true :=
  ⟨⟨_, rfl, rfl⟩, ⟨_, rfl, rfl, rfl, rfl⟩, _, rfl, rfl⟩

end Replicator

end SqlAnywhere.Bottomless
