import SqlAnywhere.Table

/-!
# The jobs of a branch

`effects_since` and `apply_effects` of `branch.rs` on the jobs a branch has queued, with the two
enqueuers of the library: `queue::enqueue` and the triggers of an embedding column.

* `Producer.row` — the row of `askr_jobs` that an enqueuer puts
* `effectsSince`, `applyEffects` — reading the rows of a branch, and enqueuing them on main
* `carried_iff` — which jobs are read, and arrive as they were
-/

namespace SqlAnywhere.Branch

open List

/-- `Error::Misuse`, with what was found. -/
inductive Error
  /-- expected text, got {other:?} -/
  | text (got : Value)
  /-- expected an integer, got {other:?} -/
  | integer (got : Value)
  /-- expected a job or event payload, got {other:?} -/
  | payload (got : Value)
  deriving DecidableEq, Repr

/-- What is carried of a row of `askr_jobs`. -/
structure JobRow where
  queue : Value
  payload : Value
  priority : Value
  availableAt : Value
  maxAttempts : Value
  deriving DecidableEq, Repr

structure Job where
  queue : String
  payload : List UInt8
  priority : Int64
  availableAt : Int64
  maxAttempts : Int64

def text : Value → Except Error String
  | .text s => .ok s
  | .null => .ok ""
  | other => .error (.text other)

def int : Value → Except Error Int64
  | .integer i => .ok i
  | other => .error (.integer other)

/-- Text is taken as its UTF-8 bytes. -/
def payload : Value → Except Error (List UInt8)
  | .blob b => .ok b
  | .text t => .ok t.toUTF8.toList
  | other => .error (.payload other)

def effect (r : JobRow) : Except Error Job := do
  return ⟨← text r.queue, ← payload r.payload, ← int r.priority, ← int r.availableAt,
    ← int r.maxAttempts⟩

/-- The jobs after the mark `from`; rows are listed in the order of their ids. -/
def effectsSince («from» : ℤ) (rows : List (ℤ × JobRow)) : Except Error (List Job) :=
  (rows.filter («from» < ·.1)).mapM (effect ·.2)

/-- A sum is an integer of 64 bits. -/
def Fits (i : ℤ) : Prop := -9223372036854775808 ≤ i ∧ i < 9223372036854775808

instance (i : ℤ) : Decidable (Fits i) := inferInstanceAs (Decidable (_ ∧ _))

section

-- the double nearest to an integer
variable (nearest : ℤ → UInt64)

/-- `x + y` in SQL: a sum that is no integer of 64 bits is a real. -/
def add (x y : Int64) : Value :=
  if Fits (x.toInt + y.toInt) then .integer (x + y) else .real (nearest (x.toInt + y.toInt))

/-- `ENQUEUE` at the time `now`. -/
def enqueue (now : Int64) (queue : String) (payload : List UInt8)
    (priority delay maxAttempts : Int64) : JobRow :=
  ⟨.text queue, .blob payload, .integer priority, add nearest now delay, .integer maxAttempts⟩

/-- The enqueuers: `queue::enqueue`, and the statement of a trigger or a backfill, which leaves
`max_attempts` to its default. -/
inductive Producer
  | enqueue (queue : String) (payload : List UInt8) (priority delay maxAttempts : Int64)
  | embed (queue : String) (rowid : Int64)

def Producer.row (now : Int64) : Producer → JobRow
  | .enqueue queue payload priority delay maxAttempts =>
      Branch.enqueue nearest now queue payload priority delay maxAttempts
  | .embed queue rowid => ⟨.text queue, .integer rowid, .integer 0, .integer now, .integer 25⟩

/-- A row that was put on the branch, with its id and the time. -/
structure Put where
  id : ℤ
  time : Int64
  by_ : Producer

/-- Enqueue the jobs on main: `now` is read once, `clock` is the time of each statement.  The
difference of two times wraps around. -/
def applyEffects (now : Int64) : (clock : ℕ → Int64) → List Job → List JobRow
  | _, [] => []
  | clock, job :: jobs =>
      enqueue nearest (clock 0) job.queue job.payload job.priority (job.availableAt - now)
          job.maxAttempts ::
        applyEffects now (fun i => clock (i + 1)) jobs

/-- A row that can be read. -/
def Producer.Read (time : Int64) : Producer → Prop
  | .enqueue _ _ _ delay _ => Fits (time.toInt + delay.toInt)
  | .embed _ _ => False

/-- A job that arrives as it was: in addition the delay left can be computed, and the clock has
not gone on since it was. -/
def Producer.Carried (now clock time : Int64) : Producer → Prop
  | .enqueue _ _ _ delay _ => Fits (time.toInt + delay.toInt) ∧
      Fits (time.toInt + delay.toInt - now.toInt) ∧ clock = now
  | .embed _ _ => False

/-- The effect that is read, of a row that can be. -/
def Producer.job (time : Int64) : Producer → Job
  | .enqueue queue payload priority delay maxAttempts =>
      ⟨queue, payload, priority, time + delay, maxAttempts⟩
  | .embed queue _ => ⟨queue, [], 0, time, 25⟩

theorem effect_row_iff (time : Int64) (p : Producer) (job : Job) :
    effect (p.row nearest time) = .ok job ↔ p.Read time ∧ job = p.job time := by
  cases p with
  | enqueue queue payload priority delay maxAttempts =>
    simp only [Producer.row, enqueue, effect, text, Branch.payload, int, add, Producer.Read]
    split_ifs with h <;>
      simp [h, bind, Except.bind, pure, Except.pure, Producer.job, eq_comm (b := job)]
  | embed queue rowid =>
    simp [Producer.row, effect, text, Branch.payload, Producer.Read, bind, Except.bind]

theorem toInt_add {x y : Int64} (h : Fits (x.toInt + y.toInt)) :
    (x + y).toInt = x.toInt + y.toInt := by
  rw [Int64.toInt_add]
  exact Int.bmod_eq_of_le (by simpa using h.1) (by simpa using h.2)

theorem carried_job_iff {now clock time : Int64} {p : Producer} (h : p.Read time) :
    enqueue nearest clock (p.job time).queue (p.job time).payload (p.job time).priority
        ((p.job time).availableAt - now) (p.job time).maxAttempts = p.row nearest time ↔
      p.Carried now clock time := by
  cases p with
  | enqueue queue payload priority delay maxAttempts =>
    have hsum := toInt_add h
    have hsub := Int64.toInt_sub (time + delay) now
    have hc := clock.toInt_lt
    have hc' := clock.le_toInt
    have hn := now.toInt_lt
    have hn' := now.le_toInt
    simp only [Producer.Read] at h
    simp only [Producer.job, Producer.row, enqueue, Producer.Carried, JobRow.mk.injEq, h, true_and,
      and_true, ← Int64.toInt_inj (x := clock)]
    rw [add, add, if_pos h]
    rw [hsum, Int.bmod] at hsub
    split_ifs with hf
    · rw [Value.integer.injEq, ← Int64.toInt_inj, toInt_add hf, hsum, hsub]
      simp only [Fits] at *
      omega
    · simp only [false_iff]
      simp only [Fits] at *
      omega
  | embed => cases h

theorem applyEffects_iff {now : Int64} {put : List Put} (clock : ℕ → Int64)
    (h : ∀ p ∈ put, p.by_.Read p.time) :
    applyEffects nearest now clock (put.map fun p => p.by_.job p.time) =
        put.map (fun p => p.by_.row nearest p.time) ↔
      ∀ i (p : Put), put[i]? = some p → p.by_.Carried now (clock i) p.time := by
  induction put generalizing clock with
  | nil => simp [applyEffects]
  | cons p put ih =>
    rw [forall_mem_cons] at h
    rw [map_cons, map_cons, applyEffects, cons.injEq, carried_job_iff nearest h.1, ih _ h.2]
    constructor
    · rintro ⟨hp, hput⟩ i q hq
      cases i with
      | zero => cases hq; exact hp
      | succ i => exact hput i q hq
    · exact fun hall => ⟨hall 0 p rfl, fun i q hq => hall (i + 1) q hq⟩

end

end SqlAnywhere.Branch
