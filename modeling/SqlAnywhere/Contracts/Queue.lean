import Mathlib.Data.Int.Notation
import SqlAnywhere.Lib.RowTable

/-!
# The queue contract

The statements of the queue contract (`contracts.rs`): each is one statement, or one transaction
that begins with the write lock, so that a run is a list of them in the order they took effect, each
at the time `unixepoch()` gave it.

* `First` — what a claim returns: the first ready job of the queue
* `Db.lease_excludes` — a job is claimed again only after a release or when its lease has expired
* `Db.claim_of_enqueue` — an enqueued job that no statement has touched since is ready when it is due
* `Db.places` — a job is in the queue, acknowledged, or in the table of failed jobs, and once
-/

namespace SqlAnywhere.Queue

open Function List Option

variable {π : Type}

/-- A row of `askr_jobs` without its `id`. -/
structure Job (π : Type) where
  queue : String
  payload : π
  priority : ℤ
  availableAt : ℤ
  reservedUntil : Option ℤ
  attempts : ℤ
  maxAttempts : ℤ

/-- A row of `askr_failed_jobs`. -/
structure FailedJob (π : Type) where
  uuid : Option String
  queue : String
  payload : π
  exception : Option String
  attempts : ℤ

/-- The tables of the contract.  `seq` is the last id that `AUTOINCREMENT` gave. -/
structure Db (π : Type) where
  jobs : RowTable ℕ (Job π)
  seq : ℕ
  failed : List (FailedJob π)
  fresh : ∀ id, seq < id → jobs.get id = none

/-- A statement with its parameters. -/
inductive Op (π : Type)
  | enqueue (queue : String) (payload : π) (priority delay maxAttempts : ℤ)
  | claim (visibility : ℤ) (queue : String)
  | ack (id : ℕ)
  | release (backoff : ℤ) (id : ℕ)
  | renew (visibility : ℤ) (id : ℕ)
  | deadLetter (uuid exception : Option String) (id : ℕ)

/-- What a statement returns. -/
inductive Result (π : Type)
  | id (id : ℕ)
  | job (row : Option (ℕ × π × ℤ × ℤ))
  | changed (rows : ℕ)

/-- The `WHERE` clause of a claim. -/
def Job.ready (now : ℤ) (queue : String) (j : Job π) : Bool :=
  j.queue = queue && j.availableAt ≤ now && j.reservedUntil.all (· ≤ now)

/-- `ORDER BY priority DESC, available_at, id`. -/
def before (p q : ℕ × Job π) : Bool :=
  q.2.priority < p.2.priority || p.2.priority = q.2.priority &&
    (p.2.availableAt < q.2.availableAt || p.2.availableAt = q.2.availableAt && p.1 ≤ q.1)

namespace Db

/-- The ready jobs of a queue, in their order. -/
def candidates (now : ℤ) (queue : String) (db : Db π) : List (ℕ × Job π) :=
  (db.jobs.rowids.filterMap fun id =>
    ((db.jobs.get id).filter (Job.ready now queue)).map (id, ·)).mergeSort before

/-- `UPDATE askr_jobs SET … WHERE id = :id` for a row that is there. -/
def setJob (db : Db π) (id : ℕ) (j : Job π) (h : (db.jobs.get id).isSome) : Db π where
  jobs := db.jobs.put id j
  seq := db.seq
  failed := db.failed
  fresh p hp := by
    rw [RowTable.get_put, if_neg, db.fresh p hp]
    rintro rfl
    simp [db.fresh p hp] at h

/-- `DELETE FROM askr_jobs WHERE id = :id`. -/
def delete (db : Db π) (id : ℕ) : Db π where
  jobs := db.jobs.erase id
  seq := db.seq
  failed := db.failed
  fresh p hp := by simp [RowTable.get_erase, db.fresh p hp]

/-- The row that an `INSERT` makes. -/
def insert (db : Db π) (j : Job π) : Db π where
  jobs := db.jobs.put (db.seq + 1) j
  seq := db.seq + 1
  failed := db.failed
  fresh p hp := by rw [RowTable.get_put, if_neg (by omega), db.fresh p (by omega)]

/-- An `UPDATE` of the row `id` where it meets the condition, with the number of rows it changed. -/
def update (db : Db π) (id : ℕ) (cond : Job π → Bool) (f : Job π → Job π) : Db π × Result π :=
  match h : db.jobs.get id with
  | none => (db, .changed 0)
  | some j => if cond j then (db.setJob id (f j) (by simp [h]), .changed 1) else (db, .changed 0)

/-- The statement at the time `now`. -/
def exec (now : ℤ) (db : Db π) : Op π → Db π × Result π
  | .enqueue queue payload priority delay maxAttempts =>
    (db.insert ⟨queue, payload, priority, now + delay, none, 0, maxAttempts⟩, .id (db.seq + 1))
  | .claim visibility queue =>
    match (db.candidates now queue).head? with
    | none => (db, .job none)
    | some (id, j) =>
      ((db.update id (fun _ => true) fun j =>
          { j with reservedUntil := some (now + visibility), attempts := j.attempts + 1 }).1,
        .job (some (id, j.payload, j.attempts + 1, j.maxAttempts)))
  | .ack id => (db.delete id, .changed (if (db.jobs.get id).isSome then 1 else 0))
  | .release backoff id =>
    db.update id (fun _ => true) fun j =>
      { j with reservedUntil := none, availableAt := now + backoff }
  | .renew visibility id =>
    db.update id (fun j => j.reservedUntil.any (now < ·)) fun j =>
      { j with reservedUntil := some (now + visibility) }
  | .deadLetter uuid exception id =>
    -- the copy and the delete, in one transaction
    match db.jobs.get id with
    | none => (db.delete id, .changed 0)
    | some j =>
      (({ db with failed := db.failed ++ [⟨uuid, j.queue, j.payload, exception, j.attempts⟩] } :
        Db π).delete id, .changed 2)

/-- The tables after a run. -/
def after (db : Db π) (run : List (ℤ × Op π)) : Db π :=
  run.foldl (fun db e => (db.exec e.1 e.2).1) db

/-- What the statements of a run have returned, put together by `f`. -/
def collect {σ : Type*} (f : σ → ℤ × Op π → Result π → σ) : Db π → List (ℤ × Op π) → σ → σ
  | _, [], x => x
  | db, e :: run, x => collect f (db.exec e.1 e.2).1 run (f x e (db.exec e.1 e.2).2)

/-- The tables before the first statement. -/
def empty : Db π := ⟨.empty, 0, [], fun _ _ => rfl⟩

/-- What every statement keeps holds of the tables and what was put together after every run. -/
theorem collect_keeps {σ : Type*} {f : σ → ℤ × Op π → Result π → σ} {I : Db π → σ → Prop}
    (h : ∀ db x e, I db x → I (db.exec e.1 e.2).1 (f x e (db.exec e.1 e.2).2))
    {db : Db π} {x : σ} (h₀ : I db x) (run : List (ℤ × Op π)) :
    I (db.after run) (db.collect f run x) := by
  induction run generalizing db x with
  | nil => exact h₀
  | cons e run ih => exact ih (h db x e h₀)

/-! ### What the statements do to a row -/

variable {db : Db π} {now : ℤ} {queue : String} {id : ℕ} {l : Option ℤ} {cond : Job π → Bool}
  {f : Job π → Job π}

theorem mem_candidates {p : ℕ × Job π} :
    p ∈ db.candidates now queue ↔ db.jobs.get p.1 = some p.2 ∧ p.2.ready now queue = true := by
  obtain ⟨id, j⟩ := p
  simp only [candidates, mem_mergeSort, mem_filterMap, map_eq_some_iff, filter_eq_some_iff,
    db.jobs.mem_iff]
  constructor
  · rintro ⟨_, -, j, hj, heq⟩
    obtain ⟨rfl, rfl⟩ := Prod.mk.inj heq
    exact hj
  · intro h
    exact ⟨id, by simp [h.1], j, h, rfl⟩

theorem get_update (p : ℕ) :
    (db.update id cond f).1.jobs.get p =
      if p = id then (db.jobs.get id).map fun j => if cond j then f j else j else db.jobs.get p := by
  unfold update
  split
  · next hid => split_ifs with hp <;> simp [hp, hid]
  · next j hid =>
    split_ifs with hcond hp hp
    all_goals simp [setJob, RowTable.get_put, hp, hid, hcond]

theorem update_changed :
    (db.update id cond f).2 = .changed (if (db.jobs.get id).any cond then 1 else 0) := by
  unfold update
  split
  · next hid => simp [hid]
  · next j hid =>
    simp only [hid, any_some]
    split_ifs <;> rfl

/-- A claim returns the first of the ready jobs of the queue. -/
structure First (now : ℤ) (queue : String) (db : Db π) (id : ℕ) (j : Job π) : Prop where
  get : db.jobs.get id = some j
  ready : j.ready now queue = true
  le : ∀ id' j', db.jobs.get id' = some j' → j'.ready now queue = true →
    before (id, j) (id', j') = true

theorem candidates_sorted (db : Db π) (now : ℤ) (queue : String) :
    (db.candidates now queue).Pairwise fun p q => before p q = true := by
  refine pairwise_mergeSort (fun a b c => ?_) (fun a b => ?_) _
  all_goals
    simp only [before, Bool.or_eq_true, Bool.and_eq_true, decide_eq_true_eq]
    omega

theorem head_candidates {j : Job π} (h : (db.candidates now queue).head? = some (id, j)) :
    db.First now queue id j := by
  obtain ⟨rest, hrest⟩ := head?_eq_some_iff.1 h
  have hsorted := db.candidates_sorted now queue
  have hmem : ∀ p, p ∈ db.candidates now queue ↔ p = (id, j) ∨ p ∈ rest := by simp [hrest]
  obtain ⟨hget, hready⟩ := mem_candidates.1 ((hmem _).2 (Or.inl rfl))
  refine ⟨hget, hready, fun id' j' hget' hready' => ?_⟩
  rcases (hmem (id', j')).1 (mem_candidates.2 ⟨hget', hready'⟩) with heq | htail
  · cases heq
    simp [before]
  · rw [hrest] at hsorted
    exact (pairwise_cons.1 hsorted).1 _ htail

/-! ### Leases -/

/-- The lease of the job `id` after a statement that returned `r`: a claim of the job and a renewal
that changed it set it, and a release ends it. -/
def leaseAfter (id : ℕ) (lease : Option ℤ) (e : ℤ × Op π) (r : Result π) : Option ℤ :=
  match e.2, r with
  | .claim visibility _, .job (some row) => if row.1 = id then some (e.1 + visibility) else lease
  | .renew visibility id', .changed n =>
    if id' = id ∧ n ≠ 0 then some (e.1 + visibility) else lease
  | .release _ id', _ => if id' = id then none else lease
  | _, _ => lease

/-- The row of the job holds its lease. -/
def Holds (db : Db π) (id : ℕ) (l : Option ℤ) : Prop :=
  id ≤ db.seq ∧ ∀ j, db.jobs.get id = some j → j.reservedUntil = l

theorem seq_update :
    (db.update id cond f).1.seq = db.seq := by
  unfold update
  split
  · rfl
  · split_ifs <;> rfl

theorem Holds.update {id id' : ℕ} {l l' : Option ℤ}
    (h : db.Holds id l) (hne : id ≠ id' → l' = l) (heq : id = id' → ∀ j, db.jobs.get id = some j →
      (if cond j then f j else j).reservedUntil = l') : (db.update id' cond f).1.Holds id l' := by
  refine ⟨by simpa only [seq_update] using h.1, fun j hj => ?_⟩
  rw [get_update] at hj
  by_cases hid : id = id'
  · subst hid
    rw [if_pos rfl] at hj
    obtain ⟨j₀, hj₀, rfl⟩ := map_eq_some_iff.1 hj
    exact heq rfl j₀ hj₀
  · rw [if_neg hid] at hj
    rw [hne hid]
    exact h.2 j hj

theorem Holds.delete (h : db.Holds id l) (id' : ℕ) :
    (db.delete id').Holds id l := by
  refine ⟨h.1, fun j hj => ?_⟩
  simp only [Db.delete, RowTable.get_erase] at hj
  split_ifs at hj
  exact h.2 j hj

theorem Holds.exec (h : db.Holds id l) (e : ℤ × Op π) :
    (db.exec e.1 e.2).1.Holds id (leaseAfter id l e (db.exec e.1 e.2).2) := by
  obtain ⟨now, op⟩ := e
  cases op with
  | enqueue queue payload priority delay maxAttempts =>
    refine ⟨Nat.le_succ_of_le h.1, fun j hj => h.2 j ?_⟩
    have hne : id ≠ db.seq + 1 := by have := h.1; omega
    simpa [Db.exec, insert, RowTable.get_put, hne] using hj
  | claim visibility queue =>
    simp only [Db.exec]
    split
    · exact h
    · next id' j' hfirst =>
      simp only [leaseAfter]
      exact h.update (fun hne => if_neg (Ne.symm hne)) fun heq j hj => by simp [heq]
  | ack id' => exact h.delete id'
  | release backoff id' =>
    simp only [Db.exec, leaseAfter]
    exact h.update (fun hne => if_neg (Ne.symm hne)) fun heq j hj => by simp [heq]
  | renew visibility id' =>
    simp only [Db.exec, leaseAfter, update_changed]
    refine h.update (fun hne => if_neg fun hp => hne hp.1.symm) fun heq j hj => ?_
    subst heq
    by_cases hcond : j.reservedUntil.any (now < ·) <;> simp [hj, hcond, ← h.2 j hj]
  | deadLetter uuid exception id' =>
    simp only [Db.exec]
    split
    · exact h.delete id'
    · exact ⟨h.1, (h.delete id').2⟩

theorem First.holds {j : Job π} (h : db.First now queue id j) :
    db.Holds id j.reservedUntil := by
  refine ⟨?_, fun j' hj' => ?_⟩
  · by_contra hlt
    have hget := h.get
    simp [db.fresh id (Nat.lt_of_not_le hlt)] at hget
  · rw [some.inj (h.get.symm.trans hj')]

theorem first_of_claim {visibility : ℤ} {row : π × ℤ × ℤ}
    (h : (db.exec now (.claim visibility queue)).2 = .job (some (id, row))) :
    ∃ j, db.First now queue id j := by
  simp only [exec] at h
  split at h
  · simp at h
  · next id' j hfirst =>
    simp only [Result.job.injEq, some.injEq, Prod.mk.injEq] at h
    exact ⟨j, h.1 ▸ head_candidates hfirst⟩

/-- What a claim at the time `now` may return after a run.  If an earlier claim returned the job too,
then its lease, as the last claim or renewal since has set it, has expired, or it was released. -/
def Claimed (run : List (ℤ × Op π)) (now : ℤ) (queue : String) :
    Option (ℕ × π × ℤ × ℤ) → Prop
  | none => ∀ id j, (empty.after run).jobs.get id = some j → j.ready now queue = false
  | some (id, row) =>
    (∃ j, (empty.after run).First now queue id j ∧
      row = (j.payload, j.attempts + 1, j.maxAttempts)) ∧
    ∀ before t v q mid row', run = before ++ (t, .claim v q) :: mid →
      ((empty.after before).exec t (.claim v q)).2 = .job (some (id, row')) →
      ∀ expires, ((empty.after before).exec t (.claim v q)).1.collect (leaseAfter id) mid
        (some (t + v)) = some expires → expires ≤ now

/-- **Leases exclude**: after any run a claim returns the first ready job of the queue, and nothing
only if none is ready, and it returns no job that is leased. -/
theorem lease_excludes (run : List (ℤ × Op π)) (now visibility : ℤ) (queue : String) :
    ∃ row, ((empty.after run).exec now (.claim visibility queue)).2 = .job row ∧
      Claimed run now queue row := by
  simp only [exec]
  split
  · next hnone =>
    refine ⟨none, rfl, fun id j hget => ?_⟩
    by_contra hready
    have hmem : (id, j) ∈ (empty.after run).candidates now queue :=
      mem_candidates.2 ⟨hget, by simpa using hready⟩
    simp [List.head?_eq_none_iff.1 hnone] at hmem
  · next id j hfirst =>
    have hclaim := head_candidates hfirst
    refine ⟨_, rfl, ⟨j, hclaim, rfl⟩, ?_⟩
    intro before t v q mid row' hrun hret expires hlease
    obtain ⟨j₀, hj₀⟩ := first_of_claim hret
    have hheld := collect_keeps (I := fun db => db.Holds id) (fun _ _ e h => h.exec e)
      (hj₀.holds.exec (t, .claim v q)) mid
    simp only [hret, leaseAfter, if_true, hlease] at hheld
    have hafter : empty.after run = ((empty.after before).exec t (.claim v q)).1.after mid := by
      simp [hrun, after]
    have hready := hclaim.ready
    simp only [Job.ready, hheld.2 j (hafter ▸ hclaim.get), Option.all_some, Bool.and_eq_true,
      decide_eq_true_eq] at hready
    exact hready.2

/-! ### Ready jobs -/

/-- The statement, which returned `r`, is about the job `id`. -/
def touches (id : ℕ) (e : ℤ × Op π) (r : Result π) : Bool :=
  match e.2, r with
  | .claim _ _, .job (some row) => row.1 = id
  | .ack id', _ | .release _ id', _ | .renew _ id', _ | .deadLetter _ _ id', _ => id' = id
  | _, _ => false

theorem get_exec_of_untouched {e : ℤ × Op π} (hid : id ≤ db.seq)
    (h : touches id e (db.exec e.1 e.2).2 = false) :
    (db.exec e.1 e.2).1.jobs.get id = db.jobs.get id ∧ id ≤ (db.exec e.1 e.2).1.seq := by
  obtain ⟨now, op⟩ := e
  cases op with
  | enqueue queue payload priority delay maxAttempts =>
    have hne : id ≠ db.seq + 1 := by omega
    exact ⟨by simp [Db.exec, insert, RowTable.get_put, hne], Nat.le_succ_of_le hid⟩
  | claim visibility queue =>
    simp only [Db.exec] at h ⊢
    split at h
    · exact ⟨rfl, hid⟩
    · next id' j _ =>
      have hne : id ≠ id' := fun heq => by simp [touches, heq] at h
      rw [get_update, if_neg hne, seq_update]
      exact ⟨rfl, hid⟩
  | release backoff id' | renew visibility id' =>
    have hne : id ≠ id' := fun heq => by simp [touches, heq] at h
    simp only [Db.exec]
    rw [get_update, if_neg hne, seq_update]
    exact ⟨rfl, hid⟩
  | ack id' =>
    have hne : id ≠ id' := fun heq => by simp [touches, heq] at h
    exact ⟨by simp [Db.exec, delete, RowTable.get_erase, hne], hid⟩
  | deadLetter uuid exception id' =>
    have hne : id ≠ id' := fun heq => by simp [touches, heq] at h
    simp only [Db.exec]
    split <;> exact ⟨by simp [delete, RowTable.get_erase, hne], hid⟩

/-- **An enqueued job is ready** once it is due, if no statement since was about it: a claim returns
it, or one that comes before it. -/
theorem claim_of_enqueue (db : Db π) {t delay : ℤ} (payload : π) (priority maxAttempts : ℤ)
    (run : List (ℤ × Op π)) (visibility : ℤ) (hdue : t + delay ≤ now) :
    let made := (db.exec t (.enqueue queue payload priority delay maxAttempts)).1
    made.collect (fun ok e r => ok && !touches (db.seq + 1) e r) run true = true →
    ∃ id j, ((made.after run).exec now (.claim visibility queue)).2 =
        .job (some (id, j.payload, j.attempts + 1, j.maxAttempts)) ∧
      before (id, j)
        (db.seq + 1, ⟨queue, payload, priority, t + delay, none, 0, maxAttempts⟩) = true := by
  intro made huntouched
  generalize hjob : Job.mk queue payload priority (t + delay) none 0 maxAttempts = job
  have hkept : (made.after run).jobs.get (db.seq + 1) = some job ∧
      db.seq + 1 ≤ (made.after run).seq := by
    refine collect_keeps (f := fun ok e r => ok && !touches (db.seq + 1) e r)
      (I := fun db' ok => ok = true → db'.jobs.get (db.seq + 1) = some job ∧ db.seq + 1 ≤ db'.seq)
      ?_ (fun _ => ?_) run huntouched
    · intro db' ok e h hok
      obtain ⟨hok, huntouched⟩ := Bool.and_eq_true_iff.1 hok
      obtain ⟨hget, hle⟩ := h hok
      have hnext := get_exec_of_untouched hle (by simpa using huntouched)
      exact ⟨hnext.1.trans hget, hnext.2⟩
    · exact ⟨by simp [made, exec, insert, RowTable.get_put, hjob], Nat.le_refl _⟩
  have hready : job.ready now queue = true := by simp [Job.ready, ← hjob, hdue]
  have hmem : (db.seq + 1, job) ∈ (made.after run).candidates now queue :=
    mem_candidates.2 ⟨hkept.1, hready⟩
  obtain ⟨⟨id, j⟩, hfirst⟩ : ∃ p, ((made.after run).candidates now queue).head? = some p :=
    ne_none_iff_exists'.1 fun hnone => by simp [List.head?_eq_none_iff.1 hnone] at hmem
  refine ⟨id, j, ?_, (head_candidates hfirst).le _ _ hkept.1 hready⟩
  simp only [exec, hfirst]

/-! ### Places -/

/-- What the statements have returned: the jobs that were enqueued, the ones an acknowledgement
deleted, and the ones that were dead-lettered, in order. -/
structure Ledger (π : Type) where
  enqueued : ℕ → Option (String × π)
  acked : List ℕ
  dead : List ℕ

/-- A statement and what it returned are written down. -/
def Ledger.record (l : Ledger π) (e : ℤ × Op π) (r : Result π) : Ledger π :=
  match e.2, r with
  | .enqueue queue payload _ _ _, .id id =>
    { l with enqueued := Function.update l.enqueued id (some (queue, payload)) }
  | .ack id, .changed n => if n = 0 then l else { l with acked := id :: l.acked }
  | .deadLetter _ _ id, .changed n => if n = 0 then l else { l with dead := l.dead ++ [id] }
  | _, _ => l

/-- A job that was enqueued is in one of three places, and there once, with its queue and its
payload; and nothing else is there. -/
structure Places (db : Db π) (l : Ledger π) : Prop where
  once : ∀ id, db.jobs.rowids.count id + l.acked.count id + l.dead.count id =
    if (l.enqueued id).isSome then 1 else 0
  job : ∀ id j, db.jobs.get id = some j → l.enqueued id = some (j.queue, j.payload)
  le : ∀ id, (l.enqueued id).isSome → id ≤ db.seq
  failed : db.failed.map (fun f => some (f.queue, f.payload)) = l.dead.map l.enqueued

theorem Places.update {l : Ledger π} (h : db.Places l)
    (hf : ∀ j, (f j).queue = j.queue ∧ (f j).payload = j.payload) :
    (db.update id cond f).1.Places l := by
  have hfailed : (db.update id cond f).1.failed = db.failed := by
    unfold Db.update
    split
    · rfl
    · split_ifs <;> rfl
  refine ⟨fun p => ?_, fun p j hj => ?_, by simpa only [seq_update] using h.le, hfailed ▸ h.failed⟩
  · have hp := h.once p
    rw [RowTable.count_rowids] at hp ⊢
    rw [get_update]
    by_cases hid : p = id <;> simpa [hid] using hp
  · rw [get_update] at hj
    split_ifs at hj with hid
    · obtain ⟨j₀, hj₀, rfl⟩ := map_eq_some_iff.1 hj
      have hjob := h.job p j₀ (hid ▸ hj₀)
      split_ifs <;> simp [hf, hjob]
    · exact h.job p j hj

theorem Places.delete {l l' : Ledger π} {failed : List (FailedJob π)} (h : db.Places l)
    (henq : l'.enqueued = l.enqueued)
    (hcount : ∀ p, l'.acked.count p + l'.dead.count p = l.acked.count p + l.dead.count p +
      if p = id ∧ (db.jobs.get id).isSome then 1 else 0)
    (hfailed : failed.map (fun f => some (f.queue, f.payload)) = l'.dead.map l.enqueued) :
    (({ db with failed := failed } : Db π).delete id).Places l' := by
  refine ⟨fun p => ?_, fun p j hj => ?_, henq ▸ h.le, henq ▸ hfailed⟩
  · have hp := h.once p
    have hc := hcount p
    rw [RowTable.count_rowids] at hp ⊢
    simp only [Db.delete, RowTable.get_erase, henq]
    by_cases hid : p = id
    · subst hid
      simp only [true_and, if_true, isSome_none, Bool.false_eq_true, if_false] at hc ⊢
      omega
    · simp only [hid, false_and, if_false] at hc ⊢
      omega
  · simp only [Db.delete, RowTable.get_erase] at hj
    split_ifs at hj
    exact henq ▸ h.job p j hj

theorem Places.insert {l : Ledger π} (h : db.Places l) (j : Job π) :
    (db.insert j).Places
      { l with enqueued := Function.update l.enqueued (db.seq + 1) (some (j.queue, j.payload)) } := by
  have hnone : l.enqueued (db.seq + 1) = none := by
    by_contra hsome
    have hle := h.le _ (isSome_iff_ne_none.2 hsome)
    omega
  have hnew := h.once (db.seq + 1)
  simp only [hnone, isSome_none, Bool.false_eq_true, if_false] at hnew
  refine ⟨fun p => ?_, fun p j' hj' => ?_, fun p hp => ?_, ?_⟩
  · have hp := h.once p
    rw [RowTable.count_rowids] at hp ⊢
    simp only [Db.insert, RowTable.get_put]
    by_cases hid : p = db.seq + 1
    · subst hid
      simp only [if_true, update_self, isSome_some]
      omega
    · simpa [hid, update_of_ne hid] using hp
  · simp only [Db.insert, RowTable.get_put] at hj'
    split_ifs at hj' with hid
    · cases hj'
      simp [hid]
    · simpa [update_of_ne hid] using h.job p j' hj'
  · by_cases hid : p = db.seq + 1
    · exact Nat.le_of_eq hid
    · exact Nat.le_succ_of_le (h.le p (by simpa [update_of_ne hid] using hp))
  · refine h.failed.trans (map_congr_left fun p hp => (update_of_ne ?_ ..).symm)
    rintro rfl
    have := count_pos_iff.2 hp
    omega

theorem Places.exec {l : Ledger π} (h : db.Places l) (e : ℤ × Op π) :
    (db.exec e.1 e.2).1.Places (l.record e (db.exec e.1 e.2).2) := by
  obtain ⟨now, op⟩ := e
  cases op with
  | enqueue queue payload priority delay maxAttempts => exact h.insert _
  | claim visibility queue =>
    simp only [Db.exec]
    split
    · exact h
    · exact h.update fun _ => ⟨rfl, rfl⟩
  | ack id =>
    by_cases hsome : (db.jobs.get id).isSome <;> simp only [Db.exec, Ledger.record, hsome]
    · refine h.delete rfl (fun p => ?_) h.failed
      simp only [if_true, Nat.reduceEqDiff, if_false, List.count_cons, beq_iff_eq, hsome, and_true,
        eq_comm (a := p)]
      omega
    · exact h.delete rfl (fun p => by simp [hsome]) h.failed
  | release | renew => exact h.update fun _ => ⟨rfl, rfl⟩
  | deadLetter uuid exception id =>
    simp only [Db.exec]
    split
    · next hnone => exact h.delete rfl (fun p => by simp [Ledger.record, hnone]) h.failed
    rename_i j hj
    refine h.delete rfl (fun p => ?_) ?_
    · simp only [Ledger.record, Nat.reduceEqDiff, if_false, List.count_append,
        List.count_singleton, beq_iff_eq, hj, Option.isSome_some, and_true, eq_comm (a := p)]
      omega
    · simp [Ledger.record, h.failed, h.job id j hj]

/-- **One of three places**: after any run, every job that was enqueued is once in `askr_jobs`,
acknowledged, or copied once to `askr_failed_jobs` with its queue and payload. -/
theorem places (run : List (ℤ × Op π)) :
    (empty.after run).Places (empty.collect Ledger.record run ⟨fun _ => none, [], []⟩) :=
  collect_keeps (I := Places) (fun _ _ e h => h.exec e)
    ⟨fun _ => rfl, by simp [empty, RowTable.empty], by simp, rfl⟩ run

end Db

end SqlAnywhere.Queue
