import SqlAnywhere.Server.Migration.Queue

/-!
# No migration is stranded

* `Scheduler.NotStranded` — an unfinished job or task will be taken up
* `Scheduler.never_stranded` — which runs have this
* `Scheduler.stranded` — the runs in which a migration is stranded
-/

namespace SqlAnywhere.Server.Migration

open Function List Option

namespace Sys

variable {ν : Type*} [DecidableEq ν] {s s' : Sys ν} {n : ν} {passes : ν → Bool}

/-- A migration that is run succeeds. -/
def Cautious (s : Sys ν) : Action ν → Prop
  | .taskTxn n commits migrates _ => commits = true → ∀ w, s.workers n = some w →
    prepareTask w.jobStatus w.oldStatus (s.rows n) = some (some .run) → migrates = true
  | _ => True

/-- How a dry run ends that has not been made is open. -/
theorem Phased.update_passes (h : s.Phased passes) (hb : s.Bookkept) {w : TaskWorker}
    (hw : s.workers n = some w) (hruns : s.dryRuns n = []) (b : Bool) :
    s.Phased (update passes n b) :=
  { h with
    oracle := by
      intro m hm c hc
      by_cases hmn : m = n
      · subst hmn
        simp [hruns] at hc
      · rw [update_of_ne hmn]
        exact h.oracle m hm c hc
    recorded := by
      have hrec := h.recorded
      have hok := hb.worker hw
      generalize s.jobStatus = status at hrec ⊢
      cases status with
      | runFailure => exact absurd (hrec.1 n hok.mem) (hok.ne_finished rfl)
      | waitingDryRun | dryRunSuccess | dryRunFailure | waitingRun | runSuccess
      | waitingTransition => exact hrec }

/-- A task whose dry run is about to be made has had none. -/
theorem Bookkept.dryRuns_nil (hb : s.Bookkept) {w : TaskWorker} (hw : s.workers n = some w)
    (hprep : prepareTask w.jobStatus w.oldStatus (s.rows n) = some (some .enqueued)) :
    s.dryRuns n = [] := by
  have hrow := hb.row (hb.worker hw).mem
  have hnone : s.rows n = none ∨ s.rows n = some .enqueued := by
    rcases prepareTask_cases hprep with ⟨-, heq⟩ | ⟨hnone, -⟩ | ⟨-, -, heq⟩ | hsome
    · cases heq
    · exact Or.inl hnone
    · cases heq
    · exact Or.inr hsome
  generalize s.rows n = row at hrow hnone
  generalize s.dryRuns n = runs at hrow ⊢
  generalize s.applied n = k at hrow
  cases hrow with
  | absent => rfl
  | passed | failed | applied | stopped => rcases hnone with heq | heq <;> cases heq

end Sys

namespace Reports

variable {ν : Type*} [DecidableEq ν] {r r' : Reports ν}

/-- What holds of a job whatever its dry runs give. -/
def Kept (r : Reports ν) : Prop := ∃ passes, r.Sound passes

theorem Kept.step (h : r.Kept) {a : Sys.Action ν × String} (hcautious : r.sys.Cautious a.1)
    (hcrash : a.1 = .crash → r.sys.jobStatus.isFinished = false → r.sys.Restartable)
    (hstep : r.step a = some r') : r'.Kept := by
  obtain ⟨passes, h⟩ := h
  obtain ⟨a, text⟩ := a
  obtain ⟨s, hs, -⟩ := h.step_iff.1 hstep
  cases Sys.step_iff.1 hs with
  | taskTxn n w commits migrates backsUp hw =>
    obtain ⟨status, hprep, -⟩ := h.phased.prepared h.books hw
    by_cases hdry : status = .enqueued
    · subst hdry
      have hruns := h.books.dryRuns_nil hw hprep
      have h' : r.Sound (update passes n migrates) :=
        { h with phased := h.phased.update_passes h.books hw hruns migrates }
      refine ⟨_, h'.step ?_ hstep⟩
      intro _ w' status' hw' hprep'
      obtain rfl := some.inj (hw.symm.trans hw')
      obtain rfl := some.inj (some.inj (hprep.symm.trans hprep'))
      refine ⟨fun _ => ?_, nofun⟩
      rw [update_self]
    · refine ⟨passes, h.step ?_ hstep⟩
      intro hcommits w' status' hw' hprep'
      obtain rfl := some.inj (hw.symm.trans hw')
      obtain rfl := some.inj (some.inj (hprep.symm.trans hprep'))
      refine ⟨fun heq => absurd heq hdry, fun heq => ?_⟩
      subst heq
      exact hcautious hcommits w hw hprep
  | crash =>
    refine ⟨passes, h.step ?_ hstep⟩
    exact hcrash rfl
  | load | work | taskMeta | schemaTxn | jobMeta | joinTask | joinJob =>
    refine ⟨passes, h.step ?_ hstep⟩
    trivial

theorem kept_registered {links : List ν} (hnodup : links.Nodup) (jobId schemaVersion : ℕ) :
    (registered links jobId schemaVersion).Kept :=
  ⟨fun _ => true, sound_registered hnodup jobId schemaVersion⟩

end Reports

namespace Sys

variable {ν : Type*} [DecidableEq ν] {s s' : Sys ν} {passes : ν → Bool}

omit [DecidableEq ν] in
/-- When the flag is lowered as a result is joined, a worker is at work. -/
theorem inFlight_of_hasMore {job : Job} (h : s.hasMore job = false) : s.InFlight := by
  simp only [hasMore, Bool.or_eq_false_iff, Bool.and_eq_false_iff, beq_eq_false_iff_ne,
    decide_eq_false_iff_not] at h
  obtain ⟨⟨-, hnot⟩, hle⟩ := h
  have hpos : 0 < s.permits := by omega
  unfold permits at hpos
  by_cases hjw : s.jobWorker = none
  · rw [hjw] at hpos
    have hcount : 0 < s.links.countP fun n => (s.workers n).isSome := hpos
    obtain ⟨n, -, hn⟩ := countP_pos_iff.1 hcount
    refine Or.inl ⟨n, fun hnone => ?_⟩
    simp [hnone] at hn
  · exact Or.inr (Or.inr hjw)

theorem Phased.inFlight_of_nextBatch (h : s.Phased passes) (hb : s.Bookkept) (ht : s.Tracked)
    {job : Job} (hjob : s.job = some job) (henq : enqueues job = true) (hbatch : s.batch = [])
    (hnext : s.nextBatch job.status = []) : s.InFlight := by
  by_contra hquiet
  unfold InFlight at hquiet
  rw [not_or, not_or, not_exists] at hquiet
  simp only [ne_eq, Decidable.not_not] at hquiet
  obtain ⟨hworkers, hresults, hw⟩ := hquiet
  exact ht.nextBatch_ne_nil hbatch hworkers (h.exists_wanted hb hjob hw hresults henq) hnext

/-- A worker that takes a step is in flight after it, and the job is what it was. -/
theorem Phased.worker_step (h : s.Phased passes) (hb : s.Bookkept) {a : Action ν}
    (hworker : a.ofWorker = true) (hstep : s.step a = some s') :
    s'.InFlight ∧ s'.job = s.job := by
  cases step_iff.1 hstep with
  | taskTxn n w commits migrates backsUp hw =>
    obtain ⟨status, hprep, -⟩ := h.prepared hb hw
    simp only [Sys.taskTxn, hprep]
    cases commits with
    | false | true => exact ⟨Or.inl ⟨n, (update_self ..).trans_ne (by rintro ⟨⟩)⟩, rfl⟩
  | taskMeta n w stepped stores =>
    cases stores with
    | false | true => exact ⟨Or.inr (Or.inl (append_ne_nil_of_right_ne_nil _ (cons_ne_nil _ _))), rfl⟩
  | schemaTxn commits migrates backsUp =>
    obtain ⟨v, k, hschema⟩ := s.exists_withSchema migrates
    simp only [Sys.schemaTxn, hschema]
    cases commits with
    | false => exact ⟨Or.inr (Or.inr (by rintro ⟨⟩)), rfl⟩
    | true =>
      cases backsUp with
      | false | true => exact ⟨Or.inr (Or.inr (by rintro ⟨⟩)), rfl⟩
  | jobMeta w stores backsUp =>
    unfold Sys.jobMeta
    split <;> exact ⟨Or.inr (Or.inr (by rintro ⟨⟩)), rfl⟩
  | load | work | joinTask | joinJob | crash => cases hworker

end Sys

namespace Scheduler

variable {σ ν : Type*} [DecidableEq σ] [DecidableEq ν] {s s' : Scheduler σ ν} {i : ℕ}
  {a : Sys.Action ν} {r : Reports ν}

/-- An unfinished job has the scheduler awake or a worker in flight, and an unfinished task of the
current job will be fetched, or is in the batch or with a worker. -/
structure NotStranded (s : Scheduler σ ν) : Prop where
  alive : s.alive = true
  wakes : (∃ i < s.schemas.length, s.unfinished i = true) → s.hasWork = true ∨ s.InFlight
  tasks : ∀ i, s.current = some i → ∀ n ∈ (s.jobs i).sys.links,
    ((s.jobs i).sys.tasks n).isFinished = false →
      (s.jobs i).sys.enqueued n = false ∨ (∃ p ∈ (s.jobs i).sys.batch, p.1 = n) ∨
        (s.jobs i).sys.workers n ≠ none

/-- A message to register a job does not come while the current job has work to do and no worker;
the namespaces of tasks open; the scheduler does not meet its last error in a row; the statuses of
tasks are stored; a migration that is run succeeds, and none ends the transaction it runs in; and the
server does not stop where an unfinished job cannot be taken up again. -/
def Careful (s : Scheduler σ ν) : Action σ ν → Prop
  | .scheduleMigration .. => s.current.isSome = true → s.hasWork = true → s.InFlight
  | .work finds fetches loads =>
    loads = true ∧ (finds = true ∧ fetches = true ∨ s.tries < maxErrorRetries)
  | .worker a _ => a.tracks = true ∧ ∀ i, s.current = some i → (s.jobs i).sys.Cautious a
  | .tear _ => False
  | .crash => ∀ i, s.current = some i → s.unfinished i = true → (s.jobs i).sys.Restartable
  | _ => True

/-- The invariant. -/
structure Inv (s : Scheduler σ ν) : Prop where
  kept : ∀ i, (s.jobs i).Kept
  tracked : ∀ i, (s.jobs i).sys.Tracked
  exited : s.exited = false
  spared : s.workerPanicked = false
  current : ∀ i, s.current = some i → (s.jobs i).sys.job.isSome = true
  bound : ∀ i, s.current = some i → i < s.schemas.length
  others : ∀ i, s.current ≠ some i → (s.jobs i).sys.job = none
  wakes : s.hasWork = false →
    s.current = none ∧ (∀ i < s.schemas.length, s.unfinished i = false) ∨ s.InFlight

omit [DecidableEq σ] in
theorem Inv.alive (h : s.Inv) : s.alive = true := by
  unfold Scheduler.alive
  rw [h.exited, all_eq_true.2]
  · rfl
  · intro i _
    obtain ⟨passes, hsound⟩ := h.kept i
    rw [hsound.phased.spared]
    rfl

omit [DecidableEq σ] in
theorem Inv.notStranded (h : s.Inv) : s.NotStranded where
  alive := h.alive
  wakes := by
    rintro ⟨i, hi, hunfin⟩
    cases hwork : s.hasWork with
    | true => exact Or.inl rfl
    | false =>
      rcases h.wakes hwork with ⟨-, hall⟩ | hflight
      · simp [hall i hi] at hunfin
      · exact Or.inr hflight
  tasks := by
    intro i _ n _ _
    cases henq : (s.jobs i).sys.enqueued n with
    | false => exact Or.inl rfl
    | true => exact Or.inr (h.tracked i n henq)

omit [DecidableEq ν] in
theorem forall_update {jobs : ℕ → Reports ν} {P : Reports ν → Prop} (h : ∀ j, P (jobs j))
    (hr : P r) (j : ℕ) : P (update jobs i r j) :=
  (forall_update_iff jobs fun _ => P).2 ⟨hr, fun j _ => h j⟩ j

section

omit [DecidableEq σ]

theorem Inv.job_step (h : s.Inv) {text : String}
    (hr : (s.jobs i).step (a, text) = some r) (hcautious : (s.jobs i).sys.Cautious a)
    (hcrash : a ≠ .crash) (htracks : a.tracks = true) :
    r.Kept ∧ r.sys.Tracked ∧ (s.jobs i).sys.step a = some r.sys := by
  have hkept := Reports.Kept.step (h.kept i) hcautious (fun heq => absurd heq hcrash) hr
  obtain ⟨passes, hsound⟩ := h.kept i
  obtain ⟨s₁, hs₁, rfl⟩ := hsound.step_iff.1 hr
  exact ⟨hkept, (h.tracked i).step hsound.phased hsound.books htracks hs₁, hs₁⟩

/-- A job is stepped, and is the current one as long as the scheduler has it. -/
theorem Inv.putJob (h : s.Inv) (hothers : ∀ j, j ≠ i → s.current ≠ some j)
    (hi : i < s.schemas.length) (hkept : r.Kept) (htracked : r.sys.Tracked) {current : Option ℕ}
    (hcurrent : current = r.sys.job.map fun _ => i) {flag : Bool}
    (hflag : flag = false → r.sys.job.isSome = true ∧ r.sys.InFlight) :
    Inv { s.setJob i r with current := current, hasWork := flag } where
  __ := h
  kept := forall_update h.kept hkept
  tracked := forall_update (P := fun r => r.sys.Tracked) h.tracked htracked
  current := by
    intro j hj
    obtain ⟨job, hjob, rfl⟩ := map_eq_some_iff.1 (hcurrent.symm.trans hj)
    show (update s.jobs i r i).sys.job.isSome = true
    rw [update_self, hjob]
    rfl
  bound := by
    intro j hj
    obtain ⟨-, -, rfl⟩ := map_eq_some_iff.1 (hcurrent.symm.trans hj)
    exact hi
  others := by
    refine (forall_update_iff s.jobs fun j r => current ≠ some j → r.sys.job = none).2
      ⟨fun hi => ?_, fun j hji _ => h.others j (hothers j hji)⟩
    cases hjob : r.sys.job with
    | none => rfl
    | some job => exact absurd (hcurrent.trans (by rw [hjob]; rfl)) hi
  wakes := by
    intro hwork
    obtain ⟨hsome, hflight⟩ := hflag hwork
    obtain ⟨job, hjob⟩ := isSome_iff_exists.1 hsome
    refine Or.inr ⟨i, hcurrent.trans (by rw [hjob]; rfl), ?_⟩
    show (update s.jobs i r i).sys.InFlight
    rw [update_self]
    exact hflight

theorem Inv.setJob (h : s.Inv) (hi : s.current = some i) (hkept : r.Kept)
    (htracked : r.sys.Tracked) (hjob : r.sys.job.isSome = true) {flag : Bool}
    (hflag : flag = false → r.sys.InFlight) : Inv { s.setJob i r with hasWork := flag } := by
  have hcurrent : s.current = r.sys.job.map fun _ => i := by
    obtain ⟨job, hjob⟩ := isSome_iff_exists.1 hjob
    rw [hi, hjob]
    rfl
  exact h.putJob (fun j hne hj => hne (some.inj (hj.symm.trans hi))) (h.bound i hi) hkept htracked
    hcurrent fun hfalse => ⟨hjob, hflag hfalse⟩

theorem Inv.turned (h : s.Inv) {ok : Bool} (hok : ok = true ∨ s.tries < maxErrorRetries) :
    (s.turned ok).Inv := by
  unfold Scheduler.turned
  split
  · exact { h with }
  · next hfail =>
    rw [if_neg (Nat.not_le.2 (hok.resolve_left hfail))]
    exact { h with }

/-- `enqueue_work` on the current job leaves the scheduler awake or a worker in flight. -/
theorem Inv.enqueueWork (h : s.Inv) (hi : s.current = some i) (hwork : s.hasWork = true)
    {fetches ok : Bool} (hstep : s.enqueueWork i fetches true = some (s', ok)) :
    s'.Inv ∧ s'.tries = s.tries ∧ (ok = true ∨ fetches = false) := by
  obtain ⟨passes, hsound⟩ := h.kept i
  have hb := hsound.books
  have hp := hsound.phased
  obtain ⟨job, hjob⟩ := isSome_iff_exists.1 (h.current i hi)
  simp only [Scheduler.enqueueWork, hjob] at hstep
  -- what a turn on the job makes of it
  have hturn : ∀ r', (s.jobs i).step (.work true, "") = some r' →
      r'.Kept ∧ r'.sys.Tracked ∧ r'.sys = (s.jobs i).sys.work job true ∧
        r'.sys.job.isSome = true := by
    intro r' hr'
    obtain ⟨hkept, htracked, hs₁⟩ := h.job_step hr' trivial nofun rfl
    have hsys : r'.sys = (s.jobs i).sys.work job true := by
      generalize r'.sys = t at hs₁
      cases Sys.step_iff.1 hs₁ with
      | work job' _ _ hjob' => rw [some.inj (hjob.symm.trans hjob')]
    refine ⟨hkept, htracked, hsys, ?_⟩
    rw [hsys, (hp.sent_work hjob true).job, hjob]
    rfl
  split at hstep
  · next henq =>
    split at hstep
    · next hfetch =>
      obtain ⟨rfl, rfl⟩ := Prod.mk.inj (some.inj hstep)
      exact ⟨h, rfl, Or.inr (by simpa using (Bool.and_eq_true_iff.1 hfetch).2)⟩
    · split at hstep
      · next hempty =>
        obtain ⟨rfl, rfl⟩ := Prod.mk.inj (some.inj hstep)
        obtain ⟨hbatch, hnext⟩ := Bool.and_eq_true_iff.1 hempty
        have hflight := hp.inFlight_of_nextBatch hb (h.tracked i) hjob henq
          (isEmpty_iff.1 hbatch) (isEmpty_iff.1 hnext)
        exact ⟨{ h with wakes := fun _ => Or.inr ⟨i, hi, hflight⟩ }, rfl, Or.inl rfl⟩
      · obtain ⟨r', hr', heq⟩ := map_eq_some_iff.1 hstep
        obtain ⟨rfl, rfl⟩ := Prod.mk.inj heq
        obtain ⟨hkept, htracked, -, hsome⟩ := hturn r' hr'
        have hinv : Inv { s.setJob i r' with hasWork := s.hasWork } := by
          refine h.setJob hi hkept htracked hsome fun hfalse => ?_
          simp [hwork] at hfalse
        exact ⟨hinv, rfl, Or.inl rfl⟩
  · next henq =>
    obtain ⟨r', hr', heq⟩ := map_eq_some_iff.1 hstep
    obtain ⟨rfl, rfl⟩ := Prod.mk.inj heq
    obtain ⟨hkept, htracked, hsys, hsome⟩ := hturn r' hr'
    refine ⟨?_, rfl, Or.inl rfl⟩
    refine h.setJob hi hkept htracked hsome fun _ => Or.inr (Or.inr ?_)
    -- the job is stepped, or waits for a step
    have hspared := (hp.work hb hjob true).spared
    have hworks := (s.jobs i).sys.works job true
    rw [hsys]
    generalize (s.jobs i).sys.work job true = t at hworks hspared ⊢
    cases hworks with
    | enqueues htrue => exact absurd htrue henq
    | steps step => nofun
    | waits _ hst =>
      have hsome := (hp.transit job hjob).1 hst
      intro hnone
      simp [hnone] at hsome
    | stops => cases hspared

end

omit [DecidableEq σ] [DecidableEq ν] in
theorem next_eq_none (h : s.next = none) (hi : i < s.schemas.length) :
    s.unfinished i = false := by
  have hnot := find?_eq_none.1 h i (mem_range.2 hi)
  simpa using hnot

omit [DecidableEq σ] in
theorem Inv.take (h : s.Inv) (hnone : s.current = none) (hwork : s.hasWork = true)
    (hi : i < s.schemas.length) (hunfin : (s.jobs i).sys.jobStatus.isFinished = false)
    (hr : (s.jobs i).step (.load, "") = some r) :
    Inv { s.setJob i r with current := some i } := by
  obtain ⟨hkept, htracked, hs₁⟩ := h.job_step hr trivial nofun rfl
  have hjob : some i = r.sys.job.map fun _ => i := by
    generalize r.sys = t at hs₁
    cases Sys.step_iff.1 hs₁
    unfold Sys.load
    rw [if_neg (by rw [hunfin]; exact Bool.false_ne_true)]
    rfl
  refine h.putJob (fun j _ => by rw [hnone]; nofun) hi hkept htracked hjob fun hfalse => ?_
  have hfalse : s.hasWork = false := hfalse
  rw [hwork] at hfalse
  cases hfalse

omit [DecidableEq σ] in
theorem Inv.work (h : s.Inv) (hwork : s.hasWork = true) {finds fetches ok : Bool}
    (hstep : s.work finds fetches true = some (s', ok)) :
    s'.Inv ∧ s'.tries = s.tries ∧ (ok = true ∨ finds = false ∨ fetches = false) := by
  unfold Scheduler.work at hstep
  split at hstep
  · next i hi =>
    obtain ⟨hinv, htries, hok⟩ := h.enqueueWork hi hwork hstep
    exact ⟨hinv, htries, hok.imp_right Or.inr⟩
  · next hnone =>
    split at hstep
    · split at hstep
      · next hnext =>
        obtain ⟨rfl, rfl⟩ := Prod.mk.inj (some.inj hstep)
        refine ⟨{ h with wakes := fun _ => Or.inl ⟨hnone, fun i hi => next_eq_none hnext hi⟩ }, rfl,
          Or.inl rfl⟩
      · next i hnext =>
        obtain ⟨r, hr, hstep⟩ := bind_eq_some_iff.1 hstep
        have hunfin : (s.jobs i).sys.jobStatus.isFinished = false := by
          simpa [unfinished] using find?_some hnext
        have hi := mem_range.1 (mem_of_find?_eq_some hnext)
        have hinv := h.take hnone hwork hi hunfin hr
        obtain ⟨hinv, htries, hok⟩ := hinv.enqueueWork rfl hwork hstep
        exact ⟨hinv, htries, hok.imp_right Or.inr⟩
    · next hfinds =>
      obtain ⟨rfl, rfl⟩ := Prod.mk.inj (some.inj hstep)
      exact ⟨h, rfl, Or.inr (Or.inl (by simpa using hfinds))⟩

theorem Inv.scheduleMigration (h : s.Inv) {links : List ν} (hnodup : links.Nodup)
    (hcare : s.current.isSome = true → s.hasWork = true → s.InFlight) (schema : σ)
    (schemaVersion : ℕ) (stores : Bool) :
    (s.scheduleMigration schema links schemaVersion stores).Inv := by
  have hflight : s.current.isNone = false → s.InFlight := by
    intro hsome
    have hsome : s.current.isSome = true := by
      rw [← not_isNone, hsome]
      rfl
    cases hwork : s.hasWork with
    | true => exact hcare hsome hwork
    | false =>
      rcases h.wakes hwork with ⟨hnone, -⟩ | hflight
      · simp [hnone] at hsome
      · exact hflight
  unfold Scheduler.scheduleMigration Scheduler.register
  split
  swap
  · exact { h with wakes := fun hfalse => Or.inr (hflight hfalse) }
  -- the new job is not the current one
  have hold : ∀ j, s.current = some j → update s.jobs s.schemas.length
      (.registered links (s.schemas.length + 1) schemaVersion) j = s.jobs j := fun j hj =>
    update_of_ne (Nat.ne_of_lt (h.bound j hj)) ..
  exact
    { kept := forall_update h.kept (Reports.kept_registered hnodup _ _)
      tracked := forall_update (P := fun r => r.sys.Tracked) h.tracked nofun
      exited := h.exited
      spared := h.spared
      current := fun j hj => by
        show (update s.jobs s.schemas.length _ j).sys.job.isSome = true
        rw [hold j hj]
        exact h.current j hj
      bound := fun j hj => by
        rw [length_append]
        exact Nat.lt_add_right _ (h.bound j hj)
      others := (forall_update_iff s.jobs fun j r => s.current ≠ some j → r.sys.job = none).2
        ⟨fun _ => rfl, fun j _ => h.others j⟩
      wakes := fun hfalse => by
        obtain ⟨j, hj, hfl⟩ := hflight hfalse
        refine Or.inr ⟨j, hj, ?_⟩
        show (update s.jobs s.schemas.length _ j).sys.InFlight
        rw [hold j hj]
        exact hfl }

section

omit [DecidableEq σ]

theorem onCurrent_eq_some {a : Sys.Action ν × String} {p : ℕ × Reports ν}
    (h : s.onCurrent a = some p) : s.current = some p.1 ∧ (s.jobs p.1).step a = some p.2 := by
  obtain ⟨i, hi, hstep⟩ := bind_eq_some_iff.1 h
  obtain ⟨r, hr, rfl⟩ := map_eq_some_iff.1 hstep
  exact ⟨hi, hr⟩

theorem Inv.worker (h : s.Inv) (hi : s.current = some i)
    (hworker : a.ofWorker = true) (htracks : a.tracks = true)
    (hcautious : (s.jobs i).sys.Cautious a) {text : String}
    (hr : (s.jobs i).step (a, text) = some r) : (s.setJob i r).Inv := by
  have hcrash : a ≠ .crash := by
    rintro rfl
    cases hworker
  obtain ⟨hkept, htracked, hs₁⟩ := h.job_step hr hcautious hcrash htracks
  obtain ⟨passes, hsound⟩ := h.kept i
  obtain ⟨hflight, hjob⟩ := hsound.phased.worker_step hsound.books hworker hs₁
  have hsome : r.sys.job.isSome = true := by
    rw [hjob]
    exact h.current i hi
  exact h.setJob hi hkept htracked hsome fun _ => hflight

theorem Inv.joinTask (h : s.Inv) (hi : s.current = some i)
    (hr : (s.jobs i).step (.joinTask, "") = some r) :
    Inv { s.setJob i r with hasWork := (r.sys.job.map r.sys.hasMore).getD s.hasWork } := by
  obtain ⟨hkept, htracked, hs₁⟩ := h.job_step hr trivial nofun rfl
  obtain ⟨job, hjob⟩ := isSome_iff_exists.1 (h.current i hi)
  obtain ⟨old, new, hjoined⟩ : ∃ old new,
      r.sys.job = some { job with progress := job.progress.move old new } := by
    generalize r.sys = t at hs₁
    cases Sys.step_iff.1 hs₁ with
    | joinTask n old new rest =>
      unfold Sys.joinTask
      rw [hjob]
      exact ⟨old, new, rfl⟩
  refine h.setJob hi hkept htracked ?_ fun hfalse => ?_
  · rw [hjoined]
    rfl
  · rw [hjoined] at hfalse
    exact Sys.inFlight_of_hasMore hfalse

theorem Inv.joinJob (h : s.Inv) (hi : s.current = some i)
    (hr : (s.jobs i).step (.joinJob, "") = some r) :
    Inv { s.setJob i r with current := r.sys.job.map fun _ => i, hasWork := true } := by
  obtain ⟨hkept, htracked, -⟩ := h.job_step hr trivial nofun rfl
  exact h.putJob (fun j hne hj => hne (some.inj (hj.symm.trans hi))) (h.bound i hi) hkept htracked
    rfl nofun

theorem Inv.restarted (h : s.Inv)
    (hcare : ∀ i, s.current = some i → s.unfinished i = true → (s.jobs i).sys.Restartable) :
    s.restarted.Inv where
  kept := by
    intro i
    have hcrash : (s.jobs i).step (.crash, "") =
        some { (s.jobs i).errors "" .crash with sys := (s.jobs i).sys.crash } := rfl
    refine Reports.Kept.step (h.kept i) ?_ (fun _ hfin => ?_) hcrash
    · trivial
    · by_cases hi : s.current = some i
      · exact hcare i hi (by unfold unfinished; rw [hfin]; rfl)
      · obtain ⟨passes, hsound⟩ := h.kept i
        exact (hsound.phased.idle (h.others i hi)).2 hfin
  tracked := fun _ => Sys.Tracked.crash
  exited := rfl
  spared := rfl
  current := nofun
  bound := nofun
  others := fun _ _ => rfl
  wakes := nofun

end

/-- **Every step** of a run that is considered keeps the invariant. -/
theorem Inv.step (h : s.Inv) {a : Action σ ν} (hcare : s.Careful a) (hstep : s.step a = some s') :
    s'.Inv := by
  cases a <;> simp only [Scheduler.step] at hstep
  case scheduleMigration schema links schemaVersion stores =>
    split_ifs at hstep
    cases hstep
    exact (h.scheduleMigration links.2 hcare schema schemaVersion stores).turned (Or.inl rfl)
  case getJobStatus =>
    split_ifs at hstep
    cases hstep
    exact h.turned (Or.inl rfl)
  case work finds fetches loads =>
    obtain ⟨rfl, htries⟩ := hcare
    split_ifs at hstep with hcan
    have hwork : s.hasWork = true := by
      rw [Bool.and_eq_true, Bool.and_eq_true] at hcan
      exact hcan.1.2
    obtain ⟨⟨s₁, ok⟩, hs₁, rfl⟩ := map_eq_some_iff.1 hstep
    obtain ⟨hinv, hsame, hok⟩ := h.work hwork hs₁
    refine hinv.turned ?_
    rw [hsame]
    rcases hok with hok | hfinds | hfetches
    · exact Or.inl hok
    · exact Or.inr (htries.resolve_left fun hboth => by rw [hfinds] at hboth; cases hboth.1)
    · exact Or.inr (htries.resolve_left fun hboth => by rw [hfetches] at hboth; cases hboth.2)
  case worker a text =>
    split_ifs at hstep with hworker
    obtain ⟨⟨i, r⟩, hp, rfl⟩ := map_eq_some_iff.1 hstep
    obtain ⟨hi, hr⟩ := onCurrent_eq_some hp
    exact h.worker hi hworker hcare.1 (hcare.2 i hi) hr
  case tear n => exact hcare.elim
  case joinPanicked => simp [h.spared] at hstep
  case joinTask =>
    split_ifs at hstep
    obtain ⟨⟨i, r⟩, hp, rfl⟩ := map_eq_some_iff.1 hstep
    obtain ⟨hi, hr⟩ := onCurrent_eq_some hp
    exact { h.joinTask hi hr with }
  case joinJob =>
    split_ifs at hstep
    obtain ⟨⟨i, r⟩, hp, rfl⟩ := map_eq_some_iff.1 hstep
    obtain ⟨hi, hr⟩ := onCurrent_eq_some hp
    exact { h.joinJob hi hr with }
  case crash =>
    cases hstep
    exact h.restarted hcare

omit [DecidableEq σ] in
theorem inv_new : (new : Scheduler σ ν).Inv where
  kept := fun _ => Reports.kept_registered nodup_nil 0 0
  tracked := nofun
  exited := rfl
  spared := rfl
  current := nofun
  bound := nofun
  others := fun _ _ => rfl
  wakes := nofun

/-- A check of `Sys.InFlight`. -/
def inFlightTest (s : Sys ν) : Bool :=
  s.links.any (fun n => (s.workers n).isSome) || !s.results.isEmpty || s.jobWorker.isSome

/-- A check of `Sys.Cautious`. -/
def cautiousTest (s : Sys ν) : Sys.Action ν → Bool
  | .taskTxn n _ migrates _ =>
    match s.workers n with
    | none => true
    | some w =>
      migrates || prepareTask w.jobStatus w.oldStatus (s.rows n) != some (some .run)
  | _ => true

/-- A check of `Careful`. -/
def carefulTest (s : Scheduler σ ν) : Action σ ν → Bool
  | .scheduleMigration .. =>
    match s.current with
    | none => true
    | some i => !s.hasWork || inFlightTest (s.jobs i).sys
  | .work finds fetches loads => loads && (finds && fetches || decide (s.tries < maxErrorRetries))
  | .worker a _ => a.tracks && s.current.all fun i => cautiousTest (s.jobs i).sys a
  | .tear _ => false
  | .crash => s.current.all fun i => !s.unfinished i || decide (s.jobs i).sys.Restartable
  | _ => true

omit [DecidableEq ν] in
theorem inFlight_of_test {s : Sys ν} (h : inFlightTest s = true) : s.InFlight := by
  simp only [inFlightTest, Bool.or_eq_true, List.any_eq_true, Bool.not_eq_eq_eq_not,
    Bool.not_true] at h
  rcases h with (⟨n, -, hn⟩ | hresults) | hjob
  · exact Or.inl ⟨n, fun hnone => by rw [hnone] at hn; cases hn⟩
  · exact Or.inr (Or.inl fun hnil => by rw [hnil] at hresults; cases hresults)
  · exact Or.inr (Or.inr fun hnone => by rw [hnone] at hjob; cases hjob)

omit [DecidableEq ν] in
theorem cautious_of_test {s : Sys ν} (h : cautiousTest s a = true) :
    s.Cautious a := by
  cases a with
  | taskTxn n commits migrates backsUp =>
    rintro - w hw hprep
    simpa [cautiousTest, hw, hprep] using h
  | load | work | taskMeta | schemaTxn | jobMeta | joinTask | joinJob | crash => trivial

omit [DecidableEq σ] [DecidableEq ν] in
theorem careful_of_test (s : Scheduler σ ν) (a : Action σ ν) (h : s.carefulTest a = true) :
    s.Careful a := by
  cases a with
  | scheduleMigration schema links schemaVersion stores =>
    intro hsome hwork
    obtain ⟨i, hi⟩ := isSome_iff_exists.1 hsome
    simp only [carefulTest, hi, hwork] at h
    exact ⟨i, hi, inFlight_of_test h⟩
  | work finds fetches loads =>
    simpa [carefulTest, Careful] using h
  | worker a text =>
    obtain ⟨htracks, hall⟩ := Bool.and_eq_true_iff.1 h
    refine ⟨htracks, fun i hi => cautious_of_test ?_⟩
    rw [hi] at hall
    exact hall
  | crash =>
    intro i hi hunfin
    simp only [carefulTest, hi, all_some, hunfin] at h
    exact of_decide_eq_true h
  | tear n => cases h
  | getJobStatus | joinPanicked | joinTask | joinJob => trivial

/-- A turn in which no operation fails. -/
def turn : Action ℕ ℕ := .work true true true

/-- A message to register a job. -/
def job (schema : ℕ) (links : { l : List ℕ // l.Nodup }) : Action ℕ ℕ :=
  .scheduleMigration schema links 0 true

/-- A step of the current job on the metastore. -/
def jobStep : List (Action ℕ ℕ) := [turn, .worker (.jobMeta true true) "", .joinJob]

/-- Two jobs, the second of which is registered while the first has a worker in flight; the query
for the next job fails once, and the server stops once. -/
def twoJobs : List (Action ℕ ℕ) :=
  [job 0 ⟨[0], by decide⟩, .work false true true, turn, job 1 ⟨[], by decide⟩,
    .worker (.taskTxn 0 true true true) "", .crash, turn, .worker (.taskTxn 0 true true true) "",
    .worker (.taskMeta 0 true) "", .joinTask] ++ jobStep ++ jobStep ++
  [turn, .worker (.taskTxn 0 true true true) "", .worker (.taskMeta 0 true) "", .joinTask, turn,
    .worker (.schemaTxn true true true) "", .worker (.jobMeta true true) "", .joinJob, turn]

/-- What tells a state in which the current job is left: the flag, whether the job is unfinished,
and whether its task is in the table of enqueued tasks, in the batch or with a worker, and whether
any worker is not joined. -/
def left (s : Scheduler ℕ ℕ) : Bool × Bool × Bool × Bool × Bool × Bool :=
  (s.hasWork, s.unfinished 0, (s.jobs 0).sys.enqueued 0, (s.jobs 0).sys.batch.isEmpty,
    ((s.jobs 0).sys.workers 0).isNone, inFlightTest (s.jobs 0).sys)

end Scheduler

end SqlAnywhere.Server.Migration
