import SqlAnywhere.Lib.Broadcast
import SqlAnywhere.Server.Migration.Outcome

/-!
# Programs on a schema database

`SchemaConnection::execute_program` with a program that writes: it registers a migration job, waits
on the channel on which the scheduler announces the steps of all jobs until it hears of the end of
its own, and asks the scheduler for the status of the job then.

* `awaited`, `waitFor`, `outcome` — the wait and what is returned
* `Sys`, `Action`, `Sys.step` — the request, its job, and the channel
* `Sys.Right` — it returns as the job has ended
* `Sys.Careful`, `Sys.returns_right` — it does wherever the wait is not cut short by a lag
-/

namespace SqlAnywhere.Server.SchemaConnection

open List Option
open Migration (JobStatus Reports)
open Migration.Sys (Action)

variable {ν : Type*}

/-- The errors of `execute_program`: the first is what the checks of the program, its dry run on the
schema database and the registration return, the second what `get_job_status` returns. -/
inductive Error (ν : Type*)
  | rejected
  | scheduler
  | dryRunFailure (error : ν × String)
  | migrationFailure (error : ν × String)

/-- Where `execute_program` is: `waiting` has read the channel up to there. -/
inductive Phase (ν : Type*)
  | preparing
  | waiting (pos : ℕ)
  | asking
  | returned (result : Except (Error ν) Unit)

def Phase.isOk : Phase ν → Bool
  | .returned (.ok _) => true
  | _ => false

def Phase.isError : Phase ν → Bool
  | .returned (.error _) => true
  | _ => false

/-- The size of the channel `event_notifier`. -/
def capacity : ℕ := 32

/-- The statuses that `execute_program` waits for. -/
def awaited : JobStatus → Bool
  | .dryRunFailure | .runSuccess | .runFailure => true
  | _ => false

/-- One turn of the loop of `JobHandle::wait_for`, which ends with the first thing it receives that
is not a message. -/
def waitFor (R : Channel.Receiver (ℕ × JobStatus) capacity) (jobId : ℕ)
    (channel : Channel (ℕ × JobStatus)) (pos : ℕ) : Option (Phase ν) :=
  (R.recv channel pos).map fun
    | (.message next, pos') =>
      if next.1 = jobId ∧ awaited next.2 = true then .asking else .waiting pos'
    | (.lagged _, _) | (.closed, _) => .asking

/-- What is returned for the status of the job and the error it has on record. -/
def outcome : JobStatus → Option (ν × String) → Except (Error ν) Unit
  | .dryRunFailure, some error => .error (.dryRunFailure error)
  | .runFailure, some error => .error (.migrationFailure error)
  | _, _ => .ok ()

/-- A request, the job it has registered under `jobId`, and what has been announced since. -/
structure Sys (ν : Type*) where
  phase : Phase ν
  jobId : ℕ
  job : Option (Reports ν)
  channel : Channel (ℕ × JobStatus)

/-- A request that has not registered its job. -/
def Sys.start : Sys ν := ⟨.preparing, 0, none, ⟨[], false⟩⟩

inductive Event (ν : Type*)
  /-- an error before there is a job -/
  | reject
  /-- `register_migration_task`, which subscribes to the channel -/
  | register (links : List ν) (jobId schemaVersion : ℕ)
  /-- a step of the job -/
  | job (a : Action ν) (text : String)
  /-- another job is stepped -/
  | other (jobId : ℕ) (status : JobStatus)
  /-- the scheduler is gone -/
  | exit
  | recv
  /-- `get_job_status`, with or without an answer -/
  | ask (answers : Bool)

variable [DecidableEq ν] {R : Channel.Receiver (ℕ × JobStatus) capacity} {phase : Phase ν}
  {channel : Channel (ℕ × JobStatus)} {m : ℕ × JobStatus}

/-- What the scheduler announces with a step of the job. -/
def announced (jobId : ℕ) (r : Reports ν) : Action ν → List (ℕ × JobStatus)
  | .joinJob =>
    match r.sys.jobWorker with
    | some ⟨_, .done status⟩ => [(jobId, status)]
    | _ => []
  | _ => []

/-- Whether the server is up after the step. -/
def isCrash : Action ν → Bool
  | .crash => true
  | _ => false

/-- `R` is the receiver of `event_notifier`. -/
def Sys.step (R : Channel.Receiver (ℕ × JobStatus) capacity) (s : Sys ν) :
    Event ν → Option (Sys ν)
  | .reject =>
    match s.phase with
    | .preparing => some { s with phase := .returned (.error .rejected) }
    | _ => none
  | .register links jobId schemaVersion =>
    match s.phase with
    | .preparing =>
      -- the metastore has each linked namespace once
      if links.Nodup then
        some ⟨.waiting 0, jobId, some (.registered links jobId schemaVersion),
          ⟨[], s.channel.closed⟩⟩
      else none
    | _ => none
  | .job a text =>
    if s.channel.closed || isCrash a then none
    else s.job.bind fun r => (r.step (a, text)).map fun r' =>
      { s with
        job := some r'
        channel := { s.channel with sent := s.channel.sent ++ announced s.jobId r a } }
  | .other jobId status =>
    if s.channel.closed || jobId == s.jobId then none
    else some { s with
      channel := { s.channel with sent := s.channel.sent ++ [(jobId, status)] } }
  | .exit => some { s with channel := { s.channel with closed := true } }
  | .recv =>
    match s.phase with
    | .waiting pos =>
      (waitFor R s.jobId s.channel pos).map fun phase => { s with phase := phase }
    | _ => none
  | .ask answers =>
    match s.phase, s.job with
    | .asking, some r =>
      if s.channel.closed || !answers then some { s with phase := .returned (.error .scheduler) }
      else some { s with phase := .returned (outcome r.sys.jobStatus r.jobError) }
    | _, _ => none

/-- The end of the job has been announced. -/
def Sys.Announced (s : Sys ν) : Prop :=
  ∃ status, awaited status = true ∧ (s.jobId, status) ∈ s.channel.sent

/-- The request returns without an error only for a job whose run has succeeded; with an error for
one that has failed; and by its own steps once the failure has been announced. -/
structure Sys.Right (R : Channel.Receiver (ℕ × JobStatus) capacity) (s : Sys ν) : Prop where
  success : s.phase = .returned (.ok ()) → ∃ r, s.job = some r ∧ r.sys.jobStatus = .runSuccess
  failure : ∀ r result, s.job = some r → r.sys.jobStatus.Fails → s.phase = .returned result →
    ∃ e, result = .error e
  answers : ∀ r, s.job = some r → r.sys.jobStatus.Fails → s.Announced →
    (∃ result, s.phase = .returned result) ∨ ∃ turns s' e,
      Run.exec (Sys.step R) s (List.replicate turns .recv ++ [.ask true]) = some s' ∧
        s'.phase = .returned (.error e)

/-- The request does not fall so far behind the channel that it misses messages before the end of its
job is announced. -/
def Sys.Careful (s : Sys ν) : Event ν → Prop
  | .recv => ∀ pos, s.phase = .waiting pos → pos + capacity < s.channel.sent.length → s.Announced
  | _ => True

/-! ### One turn of the wait -/

omit [DecidableEq ν] in
theorem waitFor_cases {jobId pos : ℕ}
    (h : waitFor R jobId channel pos = some phase) :
    phase = .asking ∧ (pos + capacity < channel.sent.length ∨ channel.closed = true ∨
        ∃ status, awaited status = true ∧ channel.sent[pos]? = some (jobId, status)) ∨
      phase = .waiting (pos + 1) ∧ ∃ m, channel.sent[pos]? = some m ∧
        ¬ (m.1 = jobId ∧ awaited m.2 = true) := by
  obtain ⟨⟨received, pos'⟩, hrecv, hphase⟩ := map_eq_some_iff.1 h
  cases received with
  | message m =>
    obtain ⟨hm, rfl⟩ := R.recv_message hrecv
    dsimp only at hphase
    split_ifs at hphase with hours
    · subst hphase
      obtain ⟨id, status⟩ := m
      obtain ⟨rfl, hawaited⟩ := hours
      exact Or.inl ⟨rfl, Or.inr (Or.inr ⟨status, hawaited, hm⟩)⟩
    · subst hphase
      exact Or.inr ⟨rfl, m, hm, hours⟩
  | lagged missed =>
    subst hphase
    exact Or.inl ⟨rfl, Or.inl (R.recv_lagged hrecv)⟩
  | closed =>
    subst hphase
    exact Or.inl ⟨rfl, Or.inr (Or.inl (R.recv_closed hrecv))⟩

omit [DecidableEq ν] in
theorem waitFor_of_unread {jobId pos : ℕ}
    (h : channel.sent[pos]? = some m) :
    ∃ phase : Phase ν, waitFor R jobId channel pos = some phase := by
  unfold waitFor
  rcases R.recv_of_unread h with ⟨missed, pos', hrecv⟩ | hrecv <;> exact ⟨_, by rw [hrecv]; rfl⟩

/-! ### What holds in every run -/

/-- The job has come to an end that is waited for. -/
def Ended (r : Reports ν) : Prop := ∃ status, awaited status = true ∧ r.Reached status

/-- What holds of a request. -/
structure Inv (s : Sys ν) : Prop where
  told : ∀ r, s.job = some r → r.Told
  reached : ∀ r, s.job = some r → ∀ m ∈ s.channel.sent, m.1 = s.jobId → r.Reached m.2
  jobless : s.job = none → s.phase = .preparing ∨ ∃ e, s.phase = .returned (.error e)
  preparing : s.phase = .preparing → s.job = none
  read : ∀ pos, s.phase = .waiting pos → pos ≤ s.channel.sent.length
  /-- what has been read is not the end of the job -/
  unread : ∀ pos, s.phase = .waiting pos → ∀ i < pos, ∀ m, s.channel.sent[i]? = some m →
    ¬ (m.1 = s.jobId ∧ awaited m.2 = true)

/-- What holds of a request that misses no message. -/
structure Heard (s : Sys ν) : Prop where
  asking : s.phase = .asking → s.channel.closed = true ∨ ∃ r, s.job = some r ∧ Ended r
  returned : s.phase = .returned (.ok ()) → ∃ r, s.job = some r ∧ r.Reached .runSuccess

variable {s s' : Sys ν} {r r' : Reports ν} {a : Action ν} {text : String} {pos : ℕ}
  {status : JobStatus}

theorem Inv.ended (h : Inv s) (hjob : s.job = some r) (hannounced : s.Announced) : Ended r := by
  obtain ⟨status, hawaited, hmem⟩ := hannounced
  exact ⟨status, hawaited, h.reached r hjob _ hmem rfl⟩

omit [DecidableEq ν] in
/-- For a job that has failed, with an error on record, an error is returned. -/
theorem outcome_of_fails {error : Option (ν × String)} (h : status.Fails)
    (herror : error ≠ none) : ∃ e, outcome status error = .error e := by
  cases error with
  | none => exact absurd rfl herror
  | some error =>
    rcases h with rfl | rfl <;> exact ⟨_, rfl⟩

/-- No error is returned only for a job whose run has succeeded. -/
theorem reached_of_outcome (htold : r.Told) (hended : Ended r)
    (h : outcome r.sys.jobStatus r.jobError = .ok ()) : r.Reached .runSuccess := by
  obtain ⟨status, hawaited, hreached⟩ := hended
  have hnot : ¬ r.sys.jobStatus.Fails := by
    intro hfails
    obtain ⟨e, he⟩ := outcome_of_fails hfails (htold.error hfails)
    simp [he] at h
  cases status with
  | runSuccess => exact hreached
  | dryRunFailure => exact absurd (hreached.givenUp (Or.inl rfl)).fails hnot
  | runFailure => exact absurd (hreached.givenUp (Or.inr rfl)).fails hnot
  | waitingDryRun | dryRunSuccess | waitingRun | waitingTransition => cases hawaited

/-! ### Every step keeps it -/

omit [DecidableEq ν] in
theorem up_of_isCrash (h : isCrash a = false) : Reports.Up a := by
  cases a with
  | crash => cases h
  | _ => trivial

/-- What a step of the job announces is so after it. -/
theorem reached_of_announced {jobId : ℕ}
    (htold : r.Told) (hstep : r.step (a, text) = some r') (hm : m ∈ announced jobId r a) :
    r'.Reached m.2 := by
  cases a with
  | joinJob =>
    obtain ⟨s, hs, rfl⟩ := map_eq_some_iff.1 hstep
    cases Migration.Sys.step_iff.1 hs with
    | joinJob step status _ hw =>
      simp only [announced, hw, mem_singleton] at hm
      subst hm
      exact htold.reached hw
  | _ => cases hm

variable (h : Inv s)
include h

theorem Inv.announce (messages : List (ℕ × JobStatus)) (job : Option (Reports ν))
    (hnone : job = none ↔ s.job = none) (htold : ∀ r, job = some r → r.Told)
    (hreached : ∀ r, job = some r → ∀ m ∈ s.channel.sent ++ messages, m.1 = s.jobId →
      r.Reached m.2) :
    Inv { s with
      job := job
      channel := { s.channel with sent := s.channel.sent ++ messages } } where
  told := htold
  reached := hreached
  jobless := fun hjob => h.jobless (hnone.1 hjob)
  preparing := fun hphase => hnone.2 (h.preparing hphase)
  read := by
    intro pos hpos
    have hread := h.read pos hpos
    rw [length_append]
    omega
  unread := by
    intro pos hpos i hi m hm
    refine h.unread pos hpos i hi m ?_
    have hread := h.read pos hpos
    have hm : (s.channel.sent ++ messages)[i]? = some m := hm
    rw [getElem?_append_left (by omega)] at hm
    exact hm

theorem Inv.job (hjob : s.job = some r)
    (hup : Reports.Up a) (hstep : r.step (a, text) = some r') :
    Inv { s with
      job := some r'
      channel := { s.channel with sent := s.channel.sent ++ announced s.jobId r a } } := by
  refine h.announce _ _ ?_ ?_ ?_
  · rw [hjob]
    exact ⟨nofun, nofun⟩
  · rintro _ ⟨⟩
    exact ((h.told r hjob).step hup hstep).told
  · rintro _ ⟨⟩ m hm hid
    rcases mem_append.1 hm with hm | hm
    · exact ((h.told r hjob).step hup hstep).reached _ (h.reached r hjob m hm hid)
    · exact reached_of_announced (h.told r hjob) hstep hm

theorem Inv.other {jobId : ℕ} (hne : jobId ≠ s.jobId) :
    Inv { s with channel := { s.channel with sent := s.channel.sent ++ [(jobId, status)] } } := by
  refine h.announce _ _ Iff.rfl h.told ?_
  intro r hjob m hm hid
  rcases mem_append.1 hm with hm | hm
  · exact h.reached r hjob m hm hid
  · rw [mem_singleton.1 hm] at hid
    exact absurd hid hne

theorem Inv.setPhase (hjob : s.job ≠ none)
    (hprepared : phase ≠ .preparing) (hpos : ∀ pos, phase ≠ .waiting pos) :
    Inv { s with phase := phase } :=
  { h with
    jobless := fun hnone => absurd hnone hjob
    preparing := fun hphase => absurd hphase hprepared
    read := fun pos hphase => absurd hphase (hpos pos)
    unread := fun pos hphase => absurd hphase (hpos pos) }

theorem Inv.job_of_waiting (hphase : s.phase = .waiting pos) : s.job ≠ none := by
  intro hnone
  rcases h.jobless hnone with hpreparing | ⟨e, hreturned⟩
  · simp [hphase] at hpreparing
  · simp [hphase] at hreturned

theorem Inv.recv (hphase : s.phase = .waiting pos)
    (hwait : waitFor R s.jobId s.channel pos = some phase) : Inv { s with phase := phase } := by
  have hjob := h.job_of_waiting hphase
  rcases waitFor_cases hwait with ⟨rfl, -⟩ | ⟨rfl, m, hm, hother⟩
  · exact h.setPhase hjob nofun nofun
  have hlt : pos < s.channel.sent.length := (List.getElem?_eq_some_iff.1 hm).1
  exact
    { h with
      jobless := fun hnone => absurd hnone hjob
      preparing := nofun
      read := by
        rintro _ ⟨⟩
        exact hlt
      unread := by
        rintro _ ⟨⟩ i hi m' hm'
        by_cases heq : i = pos
        · subst heq
          have hm' : s.channel.sent[i]? = some m' := hm'
          rw [hm] at hm'
          cases hm'
          exact hother
        · exact h.unread pos hphase i (by omega) m' hm' }

omit h

theorem inv_registered {links : List ν} (hnodup : links.Nodup) (jobId schemaVersion : ℕ)
    (closed : Bool) :
    Inv ⟨.waiting 0, jobId, some (.registered links jobId schemaVersion), ⟨[], closed⟩⟩ where
  told := by
    intro r hr
    cases hr
    exact Reports.told_registered hnodup jobId schemaVersion
  reached := fun _ _ _ hm => absurd hm not_mem_nil
  jobless := fun hnone => absurd hnone (some_ne_none _)
  preparing := nofun
  read := by
    intro pos hpos
    rw [← Phase.waiting.inj hpos]
    exact Nat.zero_le _
  unread := by
    intro pos hpos i hi
    rw [← Phase.waiting.inj hpos] at hi
    exact absurd hi (Nat.not_lt_zero i)

/-! ### A request that misses no message -/

variable (hinv : Inv s)
include hinv

/-- A wait that ends without a lag before the end of the job is announced ends with it, or with the
scheduler. -/
theorem Heard.recv (hphase : s.phase = .waiting pos) (hcareful : s.Careful .recv)
    (hwait : waitFor R s.jobId s.channel pos = some phase) : Heard { s with phase := phase } := by
  rcases waitFor_cases hwait with ⟨rfl, hend⟩ | ⟨rfl, -⟩
  · refine ⟨fun _ => ?_, nofun⟩
    obtain ⟨r, hjob⟩ := ne_none_iff_exists'.1 (hinv.job_of_waiting hphase)
    rcases hend with hlag | hclosed | ⟨status, hawaited, hmessage⟩
    · exact Or.inr ⟨r, hjob, hinv.ended hjob (hcareful pos hphase hlag)⟩
    · exact Or.inl hclosed
    · have hmem := mem_of_getElem? hmessage
      exact Or.inr ⟨r, hjob, hinv.ended hjob ⟨status, hawaited, hmem⟩⟩
  · exact ⟨nofun, nofun⟩

theorem Heard.ask (h : Heard s) (hphase : s.phase = .asking) (hjob : s.job = some r)
    (hopen : s.channel.closed = false) :
    Heard { s with phase := .returned (outcome r.sys.jobStatus r.jobError) } := by
  refine ⟨nofun, fun hok => ⟨r, hjob, ?_⟩⟩
  have hok : outcome r.sys.jobStatus r.jobError = .ok () := Phase.returned.inj hok
  rcases h.asking hphase with hclosed | ⟨r', hjob', hended⟩
  · simp [hopen] at hclosed
  · rw [hjob] at hjob'
    cases hjob'
    exact reached_of_outcome (hinv.told r hjob) hended hok

theorem Heard.job (h : Heard s)
    (hjob : s.job = some r) (hup : Reports.Up a) (hstep : r.step (a, text) = some r') :
    Heard { s with
      job := some r'
      channel := { s.channel with sent := s.channel.sent ++ announced s.jobId r a } } := by
  have hgoesOn := (hinv.told r hjob).step hup hstep
  constructor
  · intro hphase
    rcases h.asking hphase with hclosed | ⟨r₀, hjob₀, status, hawaited, hreached⟩
    · exact Or.inl hclosed
    · rw [hjob] at hjob₀
      obtain rfl := some.inj hjob₀
      exact Or.inr ⟨r', rfl, status, hawaited, hgoesOn.reached _ hreached⟩
  · intro hphase
    obtain ⟨r₀, hjob₀, hreached⟩ := h.returned hphase
    rw [hjob] at hjob₀
    obtain rfl := some.inj hjob₀
    exact ⟨r', rfl, hgoesOn.reached _ hreached⟩

/-- **Every step** keeps what holds of a request. -/
theorem Heard.step (h : Heard s) {e : Event ν} (hcareful : s.Careful e)
    (hstep : s.step R e = some s') : Inv s' ∧ Heard s' := by
  cases e <;> simp only [Sys.step] at hstep
  case reject =>
    split at hstep
    · cases hstep
      refine ⟨{ hinv with jobless := ?_, preparing := nofun, read := nofun, unread := nofun },
        nofun, nofun⟩
      exact fun _ => Or.inr ⟨_, rfl⟩
    · cases hstep
  case register links jobId schemaVersion =>
    split at hstep
    · split_ifs at hstep with hnodup
      cases hstep
      exact ⟨inv_registered hnodup jobId schemaVersion _, nofun, nofun⟩
    · cases hstep
  case job a text =>
    split_ifs at hstep with hup
    obtain ⟨r, hjob, hstep⟩ := bind_eq_some_iff.1 hstep
    obtain ⟨r', hr', rfl⟩ := map_eq_some_iff.1 hstep
    rw [Bool.or_eq_true, not_or, Bool.not_eq_true, Bool.not_eq_true] at hup
    have hup := up_of_isCrash hup.2
    exact ⟨hinv.job hjob hup hr', h.job hinv hjob hup hr'⟩
  case other jobId status =>
    split_ifs at hstep with hother
    cases hstep
    rw [Bool.or_eq_true, not_or, beq_iff_eq] at hother
    exact ⟨hinv.other hother.2, h.asking, h.returned⟩
  case exit =>
    cases hstep
    exact ⟨{ hinv with }, fun _ => Or.inl rfl, h.returned⟩
  case recv =>
    split at hstep
    · next pos hphase =>
      obtain ⟨phase, hwait, rfl⟩ := map_eq_some_iff.1 hstep
      exact ⟨hinv.recv hphase hwait, Heard.recv hinv hphase hcareful hwait⟩
    · cases hstep
  case ask answers =>
    split at hstep
    · next r hphase hjob =>
      have hsome : s.job ≠ none := by rw [hjob]; nofun
      split_ifs at hstep with hanswer
      · cases hstep
        exact ⟨hinv.setPhase hsome nofun nofun, nofun, nofun⟩
      · cases hstep
        rw [Bool.or_eq_true, not_or, Bool.not_eq_true] at hanswer
        exact ⟨hinv.setPhase hsome nofun nofun, h.ask hinv hphase hjob hanswer.1⟩
    · cases hstep

omit hinv

/-! ### The request returns -/

theorem Inv.ask_fails (h : Inv s) (hphase : s.phase = .asking) (hjob : s.job = some r)
    (hfails : r.sys.jobStatus.Fails) :
    ∃ s' e, s.step R (.ask true) = some s' ∧ s'.phase = .returned (.error e) := by
  simp only [Sys.step, hphase, hjob]
  split_ifs
  · exact ⟨_, _, rfl, rfl⟩
  · obtain ⟨e, he⟩ := outcome_of_fails hfails ((h.told r hjob).error hfails)
    exact ⟨_, e, rfl, by rw [he]⟩

/-- The end of the job, once it is announced, is still to be read. -/
theorem Inv.unread_of_announced (h : Inv s) (hannounced : s.Announced)
    (hphase : s.phase = .waiting pos) : pos < s.channel.sent.length := by
  obtain ⟨status, hawaited, hmem⟩ := hannounced
  obtain ⟨i, hi⟩ := getElem?_of_mem hmem
  have hlt : i < s.channel.sent.length := (List.getElem?_eq_some_iff.1 hi).1
  by_contra hge
  exact h.unread pos hphase i (by omega) _ hi ⟨rfl, hawaited⟩

/-- A request whose job has failed, which has been announced, returns an error by its own steps: by
induction on what is left to read. -/
theorem Inv.answers (n : ℕ) (s : Sys ν) (h : Inv s) (hjob : s.job = some r)
    (hfails : r.sys.jobStatus.Fails) (hannounced : s.Announced)
    (hphase : s.phase = .waiting pos) (hn : s.channel.sent.length - pos ≤ n) :
    ∃ turns s' e, Run.exec (Sys.step R) s (replicate turns .recv ++ [.ask true]) = some s' ∧
      s'.phase = .returned (.error e) := by
  have hpos := h.unread_of_announced hannounced hphase
  induction n generalizing s pos with
  | zero => omega
  | succ n ih =>
    obtain ⟨phase, hwait⟩ : ∃ phase : Phase ν, waitFor R s.jobId s.channel pos = some phase :=
      waitFor_of_unread (getElem?_eq_getElem hpos)
    have hstep : s.step R .recv = some { s with phase := phase } := by
      simp only [Sys.step, hphase, hwait, map_some]
    have hnext := h.recv hphase hwait
    rcases waitFor_cases hwait with ⟨rfl, -⟩ | ⟨rfl, -⟩
    · obtain ⟨s', e, hask, hreturned⟩ := hnext.ask_fails rfl hjob hfails
      refine ⟨1, s', e, ?_, hreturned⟩
      exact Run.exec_cons_iff.2 ⟨_, hstep, Run.exec_cons_iff.2 ⟨s', hask, rfl⟩⟩
    · have hleft : s.channel.sent.length - (pos + 1) ≤ n := by omega
      obtain ⟨turns, s', e, hrun, hreturned⟩ :=
        ih { s with phase := .waiting (pos + 1) } hnext hjob hannounced rfl hleft
          (hnext.unread_of_announced hannounced rfl)
      exact ⟨turns + 1, s', e, Run.exec_cons_iff.2 ⟨_, hstep, hrun⟩, hreturned⟩

theorem right_of_heard (hinv : Inv s) (h : Heard s) : s.Right R where
  success := by
    intro hphase
    obtain ⟨r, hjob, hreached⟩ := h.returned hphase
    exact ⟨r, hjob, (hreached.succeeded rfl).1⟩
  failure := by
    intro r result hjob hfails hphase
    cases result with
    | error e => exact ⟨e, rfl⟩
    | ok =>
      obtain ⟨r', hjob', hreached⟩ := h.returned hphase
      rw [hjob] at hjob'
      cases hjob'
      rw [(hreached.succeeded rfl).1] at hfails
      rcases hfails with hfails | hfails <;> cases hfails
  answers := by
    intro r hjob hfails hannounced
    cases hphase : s.phase with
    | preparing =>
      simp [hinv.preparing hphase] at hjob
    | waiting pos => exact Or.inr (Inv.answers _ s hinv hjob hfails hannounced hphase (Nat.le_refl _))
    | asking =>
      obtain ⟨s', e, hask, hreturned⟩ := hinv.ask_fails hphase hjob hfails
      exact Or.inr ⟨0, s', e, Run.exec_cons_iff.2 ⟨s', hask, rfl⟩, hreturned⟩
    | returned result => exact Or.inl ⟨result, rfl⟩

theorem inv_start : Inv (Sys.start : Sys ν) where
  told := fun _ hjob => absurd hjob.symm (some_ne_none _)
  reached := fun _ _ _ hm => absurd hm not_mem_nil
  jobless := fun _ => Or.inl rfl
  preparing := fun _ => rfl
  read := nofun
  unread := nofun

/-- **A program returns what has become of its migration**: in every run of a request, its job and
the channel in which the request is never told that it lags before the end of its job has been
announced, it returns without an error only if the run of the job has succeeded, and with an error
if the job has failed. -/
theorem Sys.returns_right (R : Channel.Receiver (ℕ × JobStatus) capacity)
    (events : List (Event ν)) (s : Sys ν)
    (hcareful : Run.Along (Sys.step R) Sys.Careful Sys.start events)
    (hrun : Run.exec (Sys.step R) Sys.start events = some s) : s.Right R := by
  have h : Inv s ∧ Heard s := by
    refine Run.exec_invariant (I := fun s => Inv s ∧ Heard s) ?_ ⟨inv_start, nofun, nofun⟩ hcareful
      hrun
    rintro s e s' ⟨hinv, hheard⟩ hok hstep
    exact hheard.step hinv hok hstep
  exact right_of_heard h.1 h.2

/-- The receiver of a channel that drops its oldest messages. -/
def notified : Channel.Receiver (ℕ × JobStatus) capacity := Channel.oldestLeft _ _

/-- A migration of a schema without linked namespaces that succeeds. -/
def migrated : List (Event Unit) :=
  [ .register [] 1 0, .job .load "", .other 7 .runSuccess,
    .job (.work true) "", .job (.jobMeta true true) "", .job .joinJob "", .recv,
    .job (.work true) "", .job (.jobMeta true true) "", .job .joinJob "", .recv, .recv,
    .job (.work true) "", .job (.schemaTxn true true true) "", .job (.jobMeta true true) "",
    .job .joinJob "", .recv, .ask true ]

/-- A migration whose dry run fails on the one linked namespace. -/
def refused : List (Event Unit) :=
  [ .register [()] 1 0, .job .load "", .job (.work true) "",
    .job (.taskTxn () true false true) "no such table", .job (.taskMeta () true) "",
    .job .joinTask "", .job (.work true) "", .job (.jobMeta true true) "", .job .joinJob "",
    .recv, .ask true ]

theorem Sys.returns_right_migrated :
    (∃ s, Run.exec (Sys.step notified) Sys.start migrated = some s ∧ s.phase.isOk = true ∧
        s.Right notified) ∧
      ∃ s, Run.exec (Sys.step notified) Sys.start refused = some s ∧ s.phase.isError = true ∧
        s.Right notified := by
  have hcareful : ∀ (s : Sys Unit) e, s.channel.sent.length ≤ capacity → s.Careful e := by
    intro s e hshort
    cases e with
    | recv =>
      intro pos _ hlag
      omega
    | _ => trivial
  obtain ⟨s, hs, hok⟩ : ∃ s, Run.exec (Sys.step notified) Sys.start migrated = some s ∧
      s.phase.isOk = true := by decide +kernel
  obtain ⟨s', hs', herror⟩ : ∃ s, Run.exec (Sys.step notified) Sys.start refused = some s ∧
      s.phase.isError = true := by decide +kernel
  have hmigrated : Run.Along (Sys.step notified) Sys.Careful Sys.start migrated :=
    Run.along_mono hcareful (by decide +kernel)
  have hrefused : Run.Along (Sys.step notified) Sys.Careful Sys.start refused :=
    Run.along_mono hcareful (by decide +kernel)
  exact ⟨⟨s, hs, hok, Sys.returns_right notified _ s hmigrated hs⟩,
    s', hs', herror, Sys.returns_right notified _ s' hrefused hs'⟩

/-- A request that gets no turn while 33 steps of other jobs are announced. -/
def outrun : List (Event Unit) :=
  .register [] 1 0 :: List.replicate 33 (.other 7 .waitingDryRun) ++ [.recv, .ask true]

/-- **A lag is taken for the end of the job**: the request returns without an error although the job
has not even been taken up. -/
theorem Sys.returns_early :
    ∃ s, Run.exec (Sys.step notified) Sys.start outrun = some s ∧ s.phase.isOk = true ∧
      s.job.map (·.sys.jobStatus) = some .waitingDryRun ∧ ¬ s.Right notified := by
  obtain ⟨s, hs, hok, hstatus⟩ : ∃ s, Run.exec (Sys.step notified) Sys.start outrun = some s ∧
      s.phase.isOk = true ∧ s.job.map (·.sys.jobStatus) = some .waitingDryRun := by decide +kernel
  refine ⟨s, hs, hok, hstatus, fun hright => ?_⟩
  have hphase : s.phase = .returned (.ok ()) := by
    revert hok
    cases s.phase with
    | returned result =>
      cases result with
      | ok => exact fun _ => rfl
      | error e => nofun
    | _ => nofun
  obtain ⟨r, hjob, hsuccess⟩ := hright.success hphase
  simp [hjob, Option.map_some, hsuccess] at hstatus

end SqlAnywhere.Server.SchemaConnection
