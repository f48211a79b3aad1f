import SqlAnywhere.Replication.Replicator.Transactions

/-!
# The database of a replica

* `Core`, `Inv` — what holds between the steps of a replicator
* `step_goes` — every step keeps it, and but for a restart goes forward
* `replica_follows` — the database has the log up to the end of a transaction
-/

namespace SqlAnywhere.Replication.Replicator

open List Option
open Server.ReplicationLog Server.ForkLog

variable {α : Type*} {upTo : Except Error ℕ} {frames history : List (Frame α)}
  {s s' : Sys α} {a : Action α} {logStart : ℕ}

/-! ### The invariant -/

/-- A number of frames that is committed, or recorded in the file. -/
structure Position (history : List (Frame α)) (logStart applied q : ℕ) : Prop where
  boundary : q ∈ commitsOf history
  le : q ≤ applied
  near : Near history logStart q applied

/-- What does not depend on the state of the replicator. -/
structure Core (history : List (Frame α)) (logStart applied committed recorded : ℕ) (db : Pages α)
    (biggest : ℕ) : Prop where
  log : Committed history
  logStart_le : logStart ≤ history.length
  boundary : applied ∈ commitsOf history
  database : db = writeFrames (fun _ => none) (history.take applied)
  memory : Position history logStart applied committed
  file : Position history logStart applied recorded
  biggest_le : biggest ≤ history.length
  biggest : Near history logStart committed (biggest + 1)

/-- The number of the frames that the meta file has recorded. -/
def Sys.recorded (s : Sys α) : ℕ := nextOffset (currentFrameNo s.file)

/-- The number of the frames that are committed, recorded or not. -/
def Sys.reached (s : Sys α) : ℕ := nextOffset (s.commitFno.or s.client.committedFrameNo)

abbrev Sys.Core (s : Sys α) : Prop :=
  Replicator.Core s.history s.logStart s.applied s.committed s.recorded s.injector.db
    s.injector.biggestUncommittedSeen

/-- No stream is being injected. -/
structure Quiet (s : Sys α) : Prop where
  commitFno : s.commitFno = none
  since : s.since = []
  carried : Carried s.injector [] s.injector
  received : nextOffset s.client.lastReceived = s.committed

/-- The answer to a request for the next frames. -/
def Sys.Answers (s : Sys α) (frames : List (Frame α)) : Prop :=
  ∃ e, Reaches s.history s.logStart s.committed s.applied s.injector.biggestUncommittedSeen []
      frames e ∧ ∀ last ∈ frames.getLast?, last.frameNo + 1 = e

/-- A stream is being injected. -/
structure Flight (s : Sys α) (stream : List (Except Unit (Frame α))) (frames : List (Frame α))
    (i₀ : SqliteInjector α) : Prop where
  state : s.state ≠ .needHandshake
  stream : stream = frames.map .ok
  carried : Carried i₀ s.since s.injector
  reaches : Reaches s.history s.logStart s.reached s.applied i₀.biggestUncommittedSeen s.since
    frames (nextOffset s.client.lastReceived)

structure Inv (s : Sys α) : Prop where
  core : s.Core
  synced : s.state ≠ .needHandshake → s.file = s.client.metaData
  taken : s.stream.isSome ∨ s.state = .needSnapshot → s.client.prefetchedBatchLogEntries = none
  quiet : s.stream = none → Quiet s
  prefetched : ∀ frames, s.client.prefetchedBatchLogEntries = some (.ok frames) → s.Answers frames
  pending : ∀ frameNo, s.commitFno = some frameNo →
    s.applied = frameNo + 1 ∧ s.since = [] ∧ s.injector.biggestUncommittedSeen = 0
  flight : ∀ stream, s.stream = some stream → ∃ frames i₀, Flight s stream frames i₀

/-- What is committed is in the database, and in the file. -/
structure InStep (s : Sys α) : Prop where
  recorded : s.recorded = s.committed
  applied : s.commitFno = none → s.applied = s.committed

/-- A step that goes back neither in the log nor in what is committed. -/
structure Advances (s s' : Sys α) : Prop where
  inv : Inv s'
  applied : s.applied ≤ s'.applied
  committed : s.committed ≤ s'.committed

/-- What a step leaves, if it is no restart. -/
structure Goes (s : Sys α) (a : Action α) (s' : Sys α) : Prop extends Advances s s' where
  inStep : InStep s → Recorded s a → InStep s'

/-- A step that commits and records nothing. -/
theorem Inv.goes (h : Inv s') (happlied : s'.applied = s.applied)
    (hcommitted : s'.committed = s.committed) (hrecorded : s'.recorded = s.recorded)
    (hcommit : s'.commitFno = none → s.commitFno = none) : Goes s a s' := by
  refine ⟨⟨h, Nat.le_of_eq happlied.symm, Nat.le_of_eq hcommitted.symm⟩, fun hin _ => ⟨?_, ?_⟩⟩
  · rw [hrecorded, hcommitted]
    exact hin.recorded
  · intro hnone
    rw [happlied, hcommitted]
    exact hin.applied (hcommit hnone)

section

variable {applied committed recorded biggest : ℕ} {db : Pages α} {more : List (Frame α)}

theorem position_applied (h : applied ∈ commitsOf history) :
    Position history logStart applied applied :=
  ⟨h, Nat.le_refl _, .inr fun _ _ hlt => Nat.le_of_lt hlt⟩

theorem near_one (logStart q : ℕ) : Near history logStart q (0 + 1) :=
  .inr fun t _ hlt => by omega

theorem Position.append {q : ℕ} (h : Position history logStart applied q)
    (hle : applied ≤ history.length) (hmore : Numbered (history ++ more)) :
    Position (history ++ more) logStart applied q :=
  ⟨mem_commitsOf_append h.boundary, h.le, h.near.append hmore (Nat.le_succ_of_le hle)⟩

theorem Position.compact {q : ℕ} (h : Position history logStart applied q) {logStart' : ℕ}
    (hle : logStart ≤ logStart') : Position history logStart' applied q :=
  { h with near := h.near.compact hle }

namespace Core

theorem append (h : Core history logStart applied committed recorded db biggest)
    (hmore : Committed (history ++ more)) :
    Core (history ++ more) logStart applied committed recorded db biggest where
  log := hmore
  logStart_le := by
    have := h.logStart_le
    rw [length_append]
    omega
  boundary := mem_commitsOf_append h.boundary
  database := by
    rw [take_append_of_le_length (h.log.commits_le h.boundary)]
    exact h.database
  memory := h.memory.append (h.log.commits_le h.boundary) hmore.numbered
  file := h.file.append (h.log.commits_le h.boundary) hmore.numbered
  biggest_le := by
    have := h.biggest_le
    rw [length_append]
    omega
  biggest := h.biggest.append hmore.numbered (Nat.succ_le_succ h.biggest_le)

theorem compact (h : Core history logStart applied committed recorded db biggest) :
    Core history history.length applied committed recorded db biggest where
  __ := h
  logStart_le := Nat.le_refl _
  memory := h.memory.compact h.logStart_le
  file := h.file.compact h.logStart_le
  biggest := h.biggest.compact h.logStart_le

theorem commit (h : Core history logStart applied committed committed db biggest)
    {t : ℕ} (htxn : Txn history logStart committed frames t) (hle : applied ≤ t) :
    Core history logStart t committed committed (writeFrames db frames) 0 where
  __ := h
  boundary := htxn.boundary
  database := by
    rw [h.database]
    exact htxn.apply h.memory.le hle (h.log.commits_le h.boundary) _
  memory := ⟨h.memory.boundary, Nat.le_of_lt htxn.lt, htxn.near⟩
  file := ⟨h.memory.boundary, Nat.le_of_lt htxn.lt, htxn.near⟩
  biggest_le := Nat.zero_le _
  biggest := near_one ..

theorem seen (h : Core history logStart applied committed recorded db biggest) {biggest' : ℕ}
    (hle : biggest' ≤ history.length) (hnear : Near history logStart committed (biggest' + 1)) :
    Core history logStart applied committed recorded db biggest' :=
  { h with biggest_le := hle, biggest := hnear }

end Core

end

/-! ### Steps that end with an error, and restarts -/

theorem quiet_fails (e : Error) : Quiet (s.fails e) :=
  ⟨rfl, rfl, (Idle.rollback _).carried, rfl⟩

theorem inv_fails (hcore : s.Core) {e : Error} (hsynced : e = .needSnapshot →
      s.file = s.client.metaData ∧ s.client.prefetchedBatchLogEntries = none)
    (hprefetched : ∀ frames, s.client.prefetchedBatchLogEntries = some (.ok frames) →
      s.Answers frames) : Inv (s.fails e) := by
  have hstate : (s.fails e).state ≠ .needHandshake → e = .needSnapshot := by
    intro hne
    by_contra he
    exact hne (if_neg he)
  refine ⟨hcore, fun hne => (hsynced (hstate hne)).1, ?_, fun _ => quiet_fails e, hprefetched,
    nofun, nofun⟩
  rintro (hsome | hstate')
  · cases hsome
  · exact (hsynced (hstate (by rw [hstate']; nofun))).2

theorem inv_fails_taken (hcore : s.Core)
    (htaken : s.client.prefetchedBatchLogEntries = none) {e : Error}
    (hsynced : e = .needSnapshot → s.file = s.client.metaData) : Inv (s.fails e) := by
  refine inv_fails hcore (fun he => ⟨hsynced he, htaken⟩) ?_
  intro frames hframes
  simp [htaken] at hframes

variable (h : Inv s) {stream : List (Except Unit (Frame α))}
include h

theorem Inv.crash (hstep : step s .crash = some s') :
    Inv s' ∧ s'.applied = s.applied ∧ s'.committed = s.recorded ∧ s'.recorded = s.recorded := by
  cases hstep
  refine ⟨⟨⟨h.core.log, h.core.logStart_le, h.core.boundary, h.core.database, h.core.file,
    h.core.file, Nat.zero_le _, near_one ..⟩, fun hne => absurd rfl hne, fun _ => rfl, fun _ => ?_,
    nofun, nofun, nofun⟩, rfl, rfl, rfl⟩
  exact ⟨rfl, rfl, Idle.carried ⟨rfl, rfl⟩, rfl⟩

theorem Inv.failed (hstate : s.state = .needSnapshot) (hcommit : s.commitFno = none) (e : Error) :
    Goes s a (s.fails e) :=
  (inv_fails_taken h.core (h.taken (.inr hstate)) fun _ => h.synced (by rw [hstate]; nofun)).goes
    rfl rfl rfl fun _ => hcommit

/-! ### The primary -/

/-- What the primary does changes nothing but its log, in which the streams go on. -/
theorem Inv.primary
    (hcore : Core history logStart s.applied s.committed s.recorded s.injector.db
      s.injector.biggestUncommittedSeen)
    (hreaches : ∀ {q applied biggest : ℕ} {since frames : List (Frame α)} {e : ℕ},
      Reaches s.history s.logStart q applied biggest since frames e →
        Reaches history logStart q applied biggest since frames e) :
    Inv { s with history, logStart } := by
  refine ⟨hcore, h.synced, h.taken, fun hnone => { h.quiet hnone with }, ?_, h.pending, ?_⟩
  · intro frames hframes
    obtain ⟨e, hanswer, hlast⟩ := h.prefetched frames hframes
    exact ⟨e, hreaches hanswer, hlast⟩
  · intro stream hstream
    obtain ⟨frames, i₀, hflight⟩ := h.flight stream hstream
    exact ⟨frames, i₀, { hflight with reaches := hreaches hflight.reaches }⟩

theorem Inv.commit (pages : List (ℕ × α)) (last : ℕ × α) {sizeAfter : ℕ}
    (hsize : sizeAfter ≠ 0) :
    Inv { s with history := s.history ++ transaction s.history.length pages last sizeAfter } := by
  have hmore := committed_append h.core.log pages last hsize
  exact h.primary (h.core.append hmore) fun hreaches => hreaches.append h.core.log hmore.numbered

theorem Inv.compact : Inv { s with logStart := s.history.length } :=
  h.primary h.core.compact fun hreaches => hreaches.compact h.core.logStart_le

/-! ### Handshakes -/

theorem Inv.forceHandshake (hnone : s.stream.isNone) :
    Inv { s with state := .needHandshake } := by
  have hnone := isNone_iff_eq_none.1 hnone
  refine ⟨h.core, fun hne => absurd rfl hne, ?_, fun _ => ?_, h.prefetched, h.pending, ?_⟩
  · rintro (hsome | hstate)
    · exact h.taken (.inl hsome)
    · cases hstate
  · obtain ⟨hcommit, hsince, hcarried, hreceived⟩ := h.quiet hnone
    exact ⟨hcommit, hsince, hcarried, hreceived⟩
  · intro stream hstream
    simp [show s.stream = none from hnone] at hstream

theorem Inv.answers (hnone : s.stream = none)
    (hbatch : s.Batch upTo) (hframes : s.answer upTo = .ok frames) :
    s.Answers frames := by
  have hquiet := h.quiet hnone
  cases upTo with
  | error e => cases hframes
  | ok e =>
    obtain ⟨hstart, hend⟩ := hbatch e rfl
    rw [Sys.answer, hquiet.received] at hframes
    rw [hquiet.received] at hstart hend
    have hframes : segment s.history s.committed e = frames := Except.ok.inj hframes
    by_cases hle : e ≤ s.committed
    · have hnil : frames = [] := by
        rw [← hframes, segment_eq_nil hle]
      rw [hnil]
      exact ⟨s.committed, .inl ⟨rfl, rfl, rfl⟩, nofun⟩
    · have hcommit := hend.resolve_left hle
      have hnear := h.core.memory.near.resolve_left (by omega)
      have hbiggest := h.core.biggest.resolve_left (by omega)
      have hplan := plan_segment h.core.log s.logStart hcommit (by omega : s.committed ≤ e)
      rw [hframes] at hplan
      refine ⟨e, hplan.reaches fun t ht hlt => ⟨hnear t ht hlt, hbiggest t ht hlt⟩, ?_⟩
      intro last hlast
      obtain ⟨-, last', -, -, hlast', hno⟩ := segment_ends h.core.log.numbered
        (show s.committed < e by omega) (h.core.log.commits_le hcommit)
      rw [hframes, mem_def.1 hlast] at hlast'
      cases hlast'
      exact hno

omit h

/-- A handshake may prefetch a batch, and changes neither of the two numbers. -/
theorem RemoteClient.handshake_spec (c : RemoteClient α) (hello : Except Unit ℕ)
    (frames : Except Error (List (Frame α))) (flushed : Bool) :
    (c.handshake hello frames flushed).1.lastReceived = c.lastReceived ∧
      (c.handshake hello frames flushed).1.committedFrameNo = c.committedFrameNo ∧
      ((c.handshake hello frames flushed).1.prefetchedBatchLogEntries = none ∨
        c.sessionToken ≠ none ∧
          (c.handshake hello frames flushed).1.prefetchedBatchLogEntries = some frames) := by
  have hprefetched : (c.sessionToken.map fun _ => frames) = none ∨
      c.sessionToken ≠ none ∧ (c.sessionToken.map fun _ => frames) = some frames := by
    cases hsession : c.sessionToken with
    | none => exact .inl rfl
    | some token => exact .inr ⟨nofun, rfl⟩
  have hmeta : currentFrameNo (some (c.metaData.getD none)) = currentFrameNo c.metaData := by
    cases c.metaData with
    | none | some => rfl
  unfold handshake
  cases hello with
  | error e => exact ⟨rfl, rfl, hprefetched⟩
  | ok token =>
    dsimp only
    split_ifs with hflushed hnew
    · exact ⟨rfl, hmeta, .inl rfl⟩
    · exact ⟨rfl, hmeta, hprefetched⟩
    · exact ⟨rfl, hmeta, hprefetched⟩

theorem Inv.shaken (h : Inv s) (hnone : s.stream = none) {client : RemoteClient α}
    {file : Option (Option ℕ)} {state : State}
    (hreceived : client.lastReceived = s.client.lastReceived)
    (hcommitted : client.committedFrameNo = s.client.committedFrameNo)
    (hanswers : ∀ frames, client.prefetchedBatchLogEntries = some (.ok frames) → s.Answers frames)
    (hsynced : state ≠ .needHandshake → file = client.metaData) (hstate : state ≠ .needSnapshot)
    (hfile : file = s.file ∨ file = client.metaData) :
    Goes s a { s with client := client, file := file, state := state } := by
  have hquiet := h.quiet hnone
  have hsame : nextOffset client.committedFrameNo = s.committed := congrArg nextOffset hcommitted
  have hposition : Position s.history s.logStart s.applied (nextOffset (currentFrameNo file)) := by
    rcases hfile with rfl | rfl
    · exact h.core.file
    · have hmemory := h.core.memory
      rw [← hsame] at hmemory
      exact hmemory
  have hcore : Core s.history s.logStart s.applied (nextOffset client.committedFrameNo)
      (nextOffset (currentFrameNo file)) s.injector.db s.injector.biggestUncommittedSeen := by
    rw [hsame]
    exact { h.core with file := hposition }
  refine ⟨⟨⟨hcore, hsynced, ?_, fun _ => ⟨hquiet.commitFno, hquiet.since, hquiet.carried, ?_⟩, ?_,
    h.pending, ?_⟩, Nat.le_refl _, Nat.le_of_eq hsame.symm⟩, fun hin _ => ⟨?_, ?_⟩⟩
  · rintro (hsome | hsnapshot)
    · exact absurd hsome (by rw [hnone]; nofun)
    · exact absurd hsnapshot hstate
  · show nextOffset client.lastReceived = nextOffset client.committedFrameNo
    rw [hreceived, hquiet.received, hsame]
  · intro frames hframes
    obtain ⟨e, hreaches, hlast⟩ := hanswers frames hframes
    rw [← hsame] at hreaches
    exact ⟨e, hreaches, hlast⟩
  · intro stream hsome
    cases hnone.symm.trans hsome
  · rcases hfile with rfl | rfl
    · exact hin.recorded.trans hsame.symm
    · rfl
  · exact fun hcommit => (hin.applied hcommit).trans hsame.symm

theorem Inv.handshake (h : Inv s) {hello : Except Unit ℕ} {flushed : Bool}
    (hhonest : Honest s (.handshake hello upTo flushed))
    (hstep : step s (.handshake hello upTo flushed) = some s') :
    Goes s (.handshake hello upTo flushed) s' := by
  have hspec := s.client.handshake_spec hello (s.answer upTo) flushed
  rw [step] at hstep
  split_ifs at hstep with hstate
  have hnone := isNone_iff_eq_none.1 hstate.2
  generalize s.client.handshake hello (s.answer upTo) flushed = r at hspec hstep
  obtain ⟨client, ok⟩ := r
  obtain ⟨hreceived, hcommitted, hprefetched⟩ := hspec
  have hanswers : ∀ frames, client.prefetchedBatchLogEntries = some (.ok frames) →
      s.Answers frames := by
    intro frames hframes
    rcases hprefetched with hnil | ⟨hsession, hsome⟩
    · exact absurd (hnil.symm.trans hframes) nofun
    · exact h.answers hnone (hhonest hsession) (some.inj (hsome.symm.trans hframes))
  cases ok with
  | false =>
    cases hstep
    exact h.shaken hnone hreceived hcommitted hanswers (fun hne => absurd hstate.1 hne)
      (by rw [hstate.1]; nofun) (.inl rfl)
  | true =>
    cases hstep
    exact h.shaken hnone hreceived hcommitted hanswers (fun _ => rfl) nofun (.inr rfl)

/-! ### Streams -/

theorem Inv.nextFrames (h : Inv s) (hhonest : Honest s (.nextFrames upTo))
    (hstep : step s (.nextFrames upTo) = some s') : Goes s (.nextFrames upTo) s' := by
  rw [step] at hstep
  split_ifs at hstep with hstate
  have hnone := isNone_iff_eq_none.1 hstate.2
  have hquiet := h.quiet hnone
  have hsynced := h.synced (by rw [hstate.1]; nofun)
  -- the answer that was prefetched, or the one to a new request
  have hanswers : ∀ frames,
      s.client.prefetchedBatchLogEntries.getD (s.answer upTo) = .ok frames → s.Answers frames := by
    intro frames hframes
    cases hprefetched : s.client.prefetchedBatchLogEntries with
    | none =>
      rw [hprefetched] at hframes
      exact h.answers hnone (hhonest hprefetched) hframes
    | some response =>
      rw [hprefetched] at hframes
      exact h.prefetched frames (by rw [hprefetched]; exact congrArg some hframes)
  rw [RemoteClient.nextFrames] at hstep
  cases hresponse : s.client.prefetchedBatchLogEntries.getD (s.answer upTo) with
  | error e =>
    rw [hresponse] at hstep
    cases hstep
    refine Inv.goes (inv_fails_taken ?_ rfl fun _ => hsynced) rfl rfl rfl fun _ =>
      hquiet.commitFno
    exact h.core
  | ok frames =>
    rw [hresponse] at hstep
    cases hstep
    obtain ⟨e, hreaches, hlast⟩ := hanswers frames hresponse
    refine Inv.goes ⟨h.core, fun _ => hsynced, fun _ => rfl, nofun, nofun, h.pending, ?_⟩
      rfl rfl rfl id
    rintro stream ⟨⟩
    refine ⟨frames, s.injector, by rw [hstate.1]; nofun, rfl, ?_, ?_⟩
    · rw [hquiet.since]
      exact hquiet.carried
    · -- the last frame of the batch is the one that is asked for next
      have hreceived : nextOffset ((frames.getLast?.map Frame.frameNo).or s.client.lastReceived) =
          e := by
        cases hframes : frames.getLast? with
        | none =>
          obtain rfl := getLast?_eq_none_iff.1 hframes
          rcases hreaches with ⟨-, -, rfl⟩ | ⟨txn, more, t, hne, heq, -⟩
          · exact hquiet.received
          · exact absurd (append_eq_nil_iff.1 heq.symm).1 hne
        | some last => exact hlast last hframes
      have hreached : nextOffset (s.commitFno.or s.client.committedFrameNo) = s.committed := by
        rw [hquiet.commitFno]
        rfl
      show Reaches s.history s.logStart (nextOffset (s.commitFno.or s.client.committedFrameNo))
        s.applied s.injector.biggestUncommittedSeen s.since frames (nextOffset _)
      rw [hreceived, hreached, hquiet.since]
      exact hreaches

theorem Inv.snapshot (h : Inv s) {file : SnapshotFile α} (hhonest : Honest s (.snapshot file))
    (hreaching : Reaching s (.snapshot file))
    (hstep : step s (.snapshot file) = some s') : Goes s (.snapshot file) s' := by
  rw [step] at hstep
  split_ifs at hstep with hstate
  have hnone := isNone_iff_eq_none.1 hstate.2
  have hquiet := h.quiet hnone
  obtain ⟨hmade, hswapped, hstart, hend⟩ := hhonest
  obtain ⟨first, frames, hstream, hfirst, htxn⟩ :=
    txn_snapshot h.core.log hmade hstart hend hswapped
  have hstream : makeSnapshotStream file (nextOffset s.client.rollback.lastReceived) =
      (first :: frames).map .ok := hstream
  rw [hstream] at hstep
  cases hstep
  refine Inv.goes ⟨h.core, fun hne => h.synced hne, fun _ => h.taken (.inr hstate.1), nofun,
    h.prefetched, ?_, ?_⟩ rfl rfl rfl id
  · intro frameNo hcommit
    exact absurd (hquiet.commitFno.symm.trans hcommit) nofun
  · rintro stream ⟨⟩
    refine ⟨first :: frames, s.injector.rollback, by rw [hstate.1]; nofun, rfl, ?_, ?_⟩
    · rw [hquiet.since]
      exact (Idle.rollback _).carried
    · show Reaches s.history s.logStart (nextOffset (s.commitFno.or s.client.committedFrameNo))
        s.applied s.injector.biggestUncommittedSeen s.since (first :: frames) (first.frameNo + 1)
      rw [hquiet.commitFno, hquiet.since, hfirst]
      exact .inr ⟨first :: frames, [], _, nofun, (append_nil _).symm, htxn, hreaching.1,
        Nat.lt_succ_of_le hreaching.2, .nil _⟩

theorem Flight.frame {frame : Frame α}
    {i₀ : SqliteInjector α} (h : Flight s stream (frame :: frames) i₀) :
    ∃ txn more t, frames = txn ++ more ∧
      Txn s.history s.logStart s.reached (s.since ++ frame :: txn) t ∧ s.applied ≤ t ∧
      i₀.biggestUncommittedSeen < t ∧
      Plan s.history s.logStart t more (nextOffset s.client.lastReceived) := by
  rcases h.reaches with ⟨-, hnil, -⟩ | ⟨txn, more, t, hne, heq, htxn, ha, hb, hplan⟩
  · cases hnil
  · obtain ⟨frame', txn, rfl⟩ := exists_cons_of_ne_nil hne
    obtain ⟨rfl, rfl⟩ := cons.inj heq
    exact ⟨txn, more, t, rfl, htxn, ha, hb, hplan⟩

theorem Txn.largest {history frames : List (Frame α)} {logStart q t : ℕ}
    (h : Txn history logStart q frames t) : largest frames + 1 = t := by
  rw [largest_of_greatest h.greatest]
  have := h.lt
  omega

theorem Inv.next (h : Inv s) (fault : Fault)
    (hstream : s.stream = some stream) (hcommit : s.commitFno = none) :
    Goes s (.next fault) (s.next fault stream) := by
  obtain ⟨frames, i₀, hflight⟩ := h.flight stream hstream
  have htaken := h.taken (.inl (by rw [hstream]; rfl))
  have hsynced := h.synced hflight.state
  have hreached : s.reached = s.committed := by
    rw [Sys.reached, hcommit]
    rfl
  have hrecorded : s.recorded = s.committed := by
    rw [Sys.recorded, hsynced]
    rfl
  have hcore : Core s.history s.logStart s.applied s.committed s.committed s.injector.db
      s.injector.biggestUncommittedSeen := { h.core with file := h.core.memory }
  have hnotPrefetched : ∀ frames, s.client.prefetchedBatchLogEntries ≠ some (.ok frames) := by
    intro frames hsome
    cases htaken.symm.trans hsome
  obtain rfl := hflight.stream
  cases frames with
  | nil =>
    -- the stream ends between two transactions
    rcases hflight.reaches with ⟨hsince, -, hreceived⟩ | ⟨txn, more, t, hne, heq, -⟩
    · refine Inv.goes ⟨h.core, fun _ => hsynced, fun _ => htaken,
        fun _ => ⟨hcommit, hsince, ?_, ?_⟩, h.prefetched, h.pending, nofun⟩ rfl rfl rfl id
      · have hcarried := hflight.carried
        rw [hsince] at hcarried
        exact hcarried.here
      · exact hreceived.trans hreached
    · exact absurd (append_eq_nil_iff.1 heq.symm).1 hne
  | cons frame frames =>
    obtain ⟨txn, more, t, rfl, htxn, ha, hb, hplan⟩ := hflight.frame
    rw [hreached] at htxn
    have hend := htxn.rest_eq_nil_iff
    have hinject := hflight.carried.inject (htxn.ordered.sublist
      (List.Sublist.append_left (cons_sublist_cons.2 (nil_sublist txn)) _)) fault
    have hdb := hflight.carried.db
    rw [map_cons, Sys.next]
    generalize s.injector.injectFrame frame fault = r at hinject
    obtain ⟨injector, ret⟩ := r
    cases hinject with
    | carried hzero hcarried =>
      have hrest : txn ≠ [] := fun hnil => hend.1 hnil hzero
      have hlt : injector.biggestUncommittedSeen < t := hcarried.biggest_lt (fun frame' hframe' => htxn.frameNo_lt
        (List.Sublist.mem hframe' (List.Sublist.append_left
          (cons_sublist_cons.2 (nil_sublist txn)) _))) hb
      have hcore' : Core s.history s.logStart s.applied s.committed s.recorded injector.db
          injector.biggestUncommittedSeen := by
        have hlen := h.core.log.commits_le htxn.boundary
        rw [hcarried.db, ← hdb]
        exact h.core.seen (by omega) (htxn.near.mono hlt)
      refine Inv.goes ⟨hcore', fun _ => hsynced, fun _ => htaken, nofun,
        fun frames hsome => absurd hsome (hnotPrefetched frames), ?_, ?_⟩ rfl rfl rfl id
      · intro frameNo hsome
        exact absurd (hcommit.symm.trans hsome) nofun
      · rintro stream ⟨⟩
        refine ⟨txn ++ more, i₀, hflight.state, rfl, hcarried,
          .inr ⟨txn, more, t, hrest, rfl, ?_, ha, hb, hplan⟩⟩
        show Txn s.history s.logStart s.reached _ t
        rw [hreached, append_assoc]
        exact htxn
    | committed hne hn hdb' hidle hbiggest =>
      obtain rfl := hend.2 hne
      obtain rfl := htxn.greatest.unique hn
      have hmax : max i₀.biggestUncommittedSeen (t - 1) = t - 1 := by omega
      have hno : t - 1 + 1 = t := by omega
      rw [hmax]
      have hlargest : largest (s.since ++ [frame]) + 1 = t := htxn.largest
      have hcore' : Core s.history s.logStart (largest (s.since ++ [frame]) + 1) s.committed
          s.recorded injector.db injector.biggestUncommittedSeen := by
        rw [hlargest, hrecorded, hbiggest, hdb', ← hdb]
        exact hcore.commit htxn ha
      refine ⟨⟨⟨hcore', fun _ => hsynced, fun _ => htaken, nofun,
        fun frames hsome => absurd hsome (hnotPrefetched frames), ?_, ?_⟩,
        ?_, Nat.le_refl _⟩, fun hin _ => ⟨hin.recorded, nofun⟩⟩
      · rintro frameNo ⟨⟩
        exact ⟨hlargest.trans hno.symm, rfl, hbiggest⟩
      · rintro stream ⟨⟩
        refine ⟨more, injector, hflight.state, rfl, hidle.carried, ?_⟩
        show Reaches s.history s.logStart (t - 1 + 1) (largest (s.since ++ [frame]) + 1)
          injector.biggestUncommittedSeen [] more _
        rw [hno, hlargest, hbiggest]
        exact hplan.reaches fun t' _ hlt => ⟨Nat.le_of_lt hlt, by omega⟩
      · show s.applied ≤ largest (s.since ++ [frame]) + 1
        omega
    | failed hfault hdb' hidle hbiggest =>
      have hcore' : Core s.history s.logStart s.applied s.committed s.recorded injector.db
          injector.biggestUncommittedSeen := by
        rw [hdb', ← hdb, hbiggest]
        exact h.core.seen (Nat.zero_le _) (near_one ..)
      rw [if_neg (by rintro ⟨rfl, -⟩; exact absurd hfault (by decide))]
      refine (inv_fails_taken ?_ ?_ ?_).goes rfl rfl rfl fun _ => hcommit
      · exact hcore'
      · exact htaken
      · nofun
    | unrefreshed hfault hne hdb' hidle hbiggest =>
      obtain rfl := hend.2 hne
      have hcore' : Core s.history s.logStart t s.committed s.recorded injector.db
          injector.biggestUncommittedSeen := by
        rw [hrecorded, hbiggest, hdb', ← hdb]
        exact hcore.commit htxn ha
      rw [if_pos ⟨hfault, hne⟩, htxn.largest]
      refine ⟨⟨inv_fails_taken ?_ ?_ ?_, ha, Nat.le_refl _⟩, fun _ hne => absurd hfault hne⟩
      · exact hcore'
      · exact htaken
      · nofun

theorem Inv.record (h : Inv s) {frameNo : ℕ} (hcommit : s.commitFno = some frameNo)
    (flushed : Bool) : Goes s (.record flushed) (s.record frameNo flushed) := by
  obtain ⟨happlied, hsince, hbiggest⟩ := h.pending frameNo hcommit
  obtain ⟨stream, hstream⟩ : ∃ stream, s.stream = some stream := by
    cases hstream : s.stream with
    | none => exact absurd ((h.quiet hstream).commitFno.symm.trans hcommit) nofun
    | some stream => exact ⟨stream, rfl⟩
  obtain ⟨frames, i₀, hflight⟩ := h.flight stream hstream
  have htaken := h.taken (.inl (by rw [hstream]; rfl))
  have hle : s.committed ≤ frameNo + 1 := happlied ▸ h.core.memory.le
  have hposition : Position s.history s.logStart s.applied (frameNo + 1) :=
    happlied ▸ position_applied h.core.boundary
  have hnear : Near s.history s.logStart (frameNo + 1)
      (s.injector.biggestUncommittedSeen + 1) := by
    rw [hbiggest]
    exact near_one ..
  rw [Sys.record]
  split_ifs with hflushed
  · refine ⟨⟨⟨{ h.core with memory := hposition, file := hposition, biggest := hnear },
      fun _ => rfl, fun _ => htaken, ?_, ?_, nofun, ?_⟩, Nat.le_refl _, hle⟩,
      fun _ _ => ⟨rfl, fun _ => happlied⟩⟩
    · intro hnone
      cases hstream.symm.trans hnone
    · intro frames' hsome
      cases htaken.symm.trans hsome
    · intro stream' hstream'
      obtain rfl := some.inj (hstream.symm.trans hstream')
      refine ⟨frames, i₀, hflight.state, hflight.stream, hflight.carried, ?_⟩
      have hreaches := hflight.reaches
      rw [show s.reached = frameNo + 1 by rw [Sys.reached, hcommit]; rfl] at hreaches
      exact hreaches
  · refine ⟨⟨inv_fails_taken ?_ ?_ ?_, Nat.le_refl _, hle⟩, fun _ hrec => absurd hrec hflushed⟩
    · exact { h.core with memory := hposition, biggest := hnear }
    · exact htaken
    · nofun

/-! ### Runs -/

theorem step_goes (h : Inv s) (hstep : step s a = some s')
    (hprimary : Honest s a ∧ Reaching s a) (ha : a ≠ .crash) : Goes s a s' := by
  obtain ⟨hhonest, hreaching⟩ := hprimary
  cases a <;> rw [step] at hstep
  case commit pages last sizeAfter =>
    cases hstep
    exact (h.commit pages last hhonest).goes rfl rfl rfl id
  case compact =>
    cases hstep
    exact h.compact.goes rfl rfl rfl id
  case forceHandshake =>
    split_ifs at hstep with hnone
    cases hstep
    exact (h.forceHandshake hnone).goes rfl rfl rfl id
  case handshake hello upTo flushed => exact h.handshake hhonest hstep
  case giveUp =>
    split_ifs at hstep with hstate
    cases hstep
    exact Inv.goes (inv_fails h.core nofun h.prefetched) rfl rfl rfl fun _ =>
      (h.quiet (isNone_iff_eq_none.1 hstate.2)).commitFno
  case nextFrames upTo => exact h.nextFrames hhonest hstep
  case snapshot file => exact h.snapshot hhonest hreaching hstep
  case snapshotFails e =>
    split_ifs at hstep with hstate
    cases hstep
    exact h.failed hstate.1 (h.quiet (isNone_iff_eq_none.1 hstate.2)).commitFno e
  case streamFails e =>
    split_ifs at hstep with hstate
    cases hstep
    exact h.failed hstate.1 hstate.2.2 e
  case next fault =>
    split at hstep
    · next stream hstream hcommit =>
      cases hstep
      exact h.next fault hstream hcommit
    · cases hstep
  case record flushed =>
    split at hstep
    · next frameNo data hcommit hdata =>
      cases hstep
      exact h.record hcommit flushed
    · cases hstep
  case crash => exact absurd rfl ha

theorem inv_step (h : Inv s) (hstep : step s a = some s')
    (hprimary : Honest s a ∧ Reaching s a) : Inv s' := by
  by_cases ha : a = .crash
  · subst ha
    exact (h.crash hstep).1
  · exact (step_goes h hstep hprimary ha).inv

theorem inv_new (hlog : Committed history)
    (hstart : logStart ≤ history.length) (capacity : ℕ) :
    Inv (Sys.new history logStart capacity) where
  core := by
    have hzero : 0 ∈ commitsOf history := mem_cons_self ..
    exact ⟨hlog, hstart, hzero, rfl, position_applied hzero, position_applied hzero,
      Nat.zero_le _, near_one ..⟩
  synced := fun hne => absurd rfl hne
  taken := fun _ => rfl
  quiet := fun _ => ⟨rfl, rfl, Idle.carried ⟨rfl, rfl⟩, rfl⟩
  prefetched := nofun
  pending := nofun
  flight := nofun

/-- The database of a replica has the log up to the end of a transaction.  The number that is
committed is the end of a transaction too: the same one, or an earlier one if a number was not
recorded, and then only one transaction earlier, unless that one is of a snapshot. -/
structure Replicates (s : Sys α) : Prop where
  database : s.injector.db = writeFrames (fun _ => none) (s.history.take s.applied)
  applied : s.applied ∈ commitsOf s.history
  committed : s.committed ∈ commitsOf s.history
  le : s.committed ≤ s.applied
  near : s.committed < s.logStart ∨ ∀ t ∈ commitsOf s.history, s.committed < t → s.applied ≤ t

theorem Inv.replicates (h : Inv s) : Replicates s :=
  ⟨h.core.database, h.core.boundary, h.core.memory.boundary, h.core.memory.le,
    h.core.memory.near⟩

/-- **A replica follows the log of its primary.**  After every run in which a snapshot that is sent
reaches what was applied and what was begun, the database has the log up to the end of a transaction;
no step goes back, except that a restart goes back to the number in the file; and as long as no commit
is left unrecorded, the database has the log up to the number that is committed. -/
theorem replica_follows {history : List (Frame α)} (hlog : Committed history) {logStart : ℕ}
    (hstart : logStart ≤ history.length) (capacity : ℕ) {actions : List (Action α)} {s : Sys α}
    (hrun : Run.exec step (Sys.new history logStart capacity) actions = some s)
    (hprimary : Run.Along step (fun s a => Honest s a ∧ Reaching s a)
      (Sys.new history logStart capacity) actions) :
    Replicates s ∧
      (∀ a s', step s a = some s' → Honest s a ∧ Reaching s a →
        s.applied ≤ s'.applied ∧
          (s.committed ≤ s'.committed ∨ a = .crash ∧ s'.committed = s.recorded)) ∧
      (Run.Along step Recorded (Sys.new history logStart capacity) actions →
        s.recorded = s.committed ∧ (s.commitFno = none → s.applied = s.committed)) := by
  have hinv : Inv s := Run.exec_invariant (fun s a s' h hok hstep => inv_step h hstep hok)
    (inv_new hlog hstart capacity) hprimary hrun
  refine ⟨hinv.replicates, ?_, ?_⟩
  · intro a s' hstep hok
    by_cases ha : a = .crash
    · subst ha
      obtain ⟨-, happlied, hcommitted, -⟩ := hinv.crash hstep
      exact ⟨Nat.le_of_eq happlied.symm, .inr ⟨rfl, hcommitted⟩⟩
    · have hgoes := step_goes hinv hstep hok ha
      exact ⟨hgoes.applied, .inl hgoes.committed⟩
  · intro hrecorded
    have hboth : Inv s ∧ InStep s := by
      refine Run.exec_invariant (I := fun s => Inv s ∧ InStep s) ?_
        ⟨inv_new hlog hstart capacity, rfl, fun _ => rfl⟩ (Run.along_and hprimary hrecorded) hrun
      rintro s a s' ⟨hinv, hin⟩ ⟨hok, hrec⟩ hstep
      refine ⟨inv_step hinv hstep hok, ?_⟩
      by_cases ha : a = .crash
      · subst ha
        obtain ⟨-, happlied, hcommitted, hfile⟩ := hinv.crash hstep
        refine ⟨hfile.trans hcommitted.symm, fun _ => ?_⟩
        rw [happlied, hcommitted, hin.recorded]
        exact hin.applied hrec
      · exact (step_goes hinv hstep hok ha).inStep hin hrec
    exact ⟨hboth.2.recorded, hboth.2.applied⟩

section Example

/-- The answers of a primary with the log `fourFrames` and two snapshots of it. -/
def passes (s : Sys ℕ) : Action ℕ → Bool
  | .commit _ _ sizeAfter => sizeAfter ≠ 0
  | .handshake _ upTo _ => s.client.sessionToken = none || batch upTo
  | .nextFrames upTo => s.client.prefetchedBatchLogEntries.isSome || batch upTo
  | .snapshot file =>
    s.history = fourFrames && (file = shortFile || file = longFile) &&
      file.endFrameNo < s.logStart && file.startFrameNo ≤ s.committed &&
      s.committed ≤ file.endFrameNo && s.applied ≤ file.endFrameNo + 1 &&
      s.injector.biggestUncommittedSeen ≤ file.endFrameNo
  | _ => true
where
  batch : Except Error ℕ → Bool
    | .error _ => true
    | .ok e => s.logStart ≤ nextOffset s.client.lastReceived &&
        (e ≤ nextOffset s.client.lastReceived || e ∈ commitsOf s.history)

theorem batch_of_passes {s : Sys ℕ} (h : passes.batch s upTo = true) :
    s.Batch upTo := by
  rintro e rfl
  simpa [passes.batch] using h

theorem primary_of_passes (s : Sys ℕ) (a : Action ℕ) (h : passes s a = true) :
    Honest s a ∧ Reaching s a := by
  cases a with
  | commit _ _ sizeAfter =>
    have hsize : sizeAfter ≠ 0 := of_decide_eq_true h
    exact ⟨hsize, trivial⟩
  | handshake _ upTo _ =>
    refine ⟨fun hsession => ?_, trivial⟩
    simp only [passes, hsession, decide_false, Bool.false_or] at h
    exact batch_of_passes h
  | nextFrames upTo =>
    refine ⟨fun hnone => ?_, trivial⟩
    simp only [passes, hnone, isSome_none, Bool.false_or] at h
    exact batch_of_passes h
  | snapshot file =>
    simp only [passes, Bool.and_eq_true, Bool.or_eq_true, decide_eq_true_eq] at h
    obtain ⟨⟨⟨⟨⟨⟨hhistory, hfile⟩, hswapped⟩, hstart⟩, hend⟩, happlied⟩, hbiggest⟩ := h
    refine ⟨⟨?_, hswapped, hstart, hend⟩, happlied, hbiggest⟩
    rw [hhistory]
    rcases hfile with rfl | rfl
    · exact shortFile_made
    · exact longFile_made
  | compact | forceHandshake => exact ⟨trivial, trivial⟩
  | giveUp | snapshotFails | next | streamFails | record | crash => exact ⟨trivial, trivial⟩

/-- One frame from the log, then a snapshot, after which the replica is restarted before the number of
its commit is recorded. -/
def restarted : List (Action ℕ) :=
  [.handshake (.ok 7) (.error .other) true, .nextFrames (.ok 1), .next .none, .record true,
    .next .none, .compact, .nextFrames (.error .needSnapshot), .snapshot shortFile, .next .none,
    .next .none, .crash]

/-- The longer snapshot is loaded after the restart, and its number is recorded. -/
def reloaded : List (Action ℕ) :=
  restarted ++ [.handshake (.ok 8) (.error .other) true, .forceHandshake,
    .handshake (.ok 8) (.error .needSnapshot) true, .nextFrames (.ok 4), .snapshot longFile,
    .next .none, .next .none, .record true, .next .none]

theorem replica_follows_reloaded :
    ∃ s, Run.exec step (Sys.new fourFrames 0 1) reloaded = some s ∧
      (s.applied = 4 ∧ s.committed = 4) ∧ Replicates s := by
  obtain ⟨s, hs, hnumbers⟩ : ∃ s, Run.exec step (Sys.new fourFrames 0 1) reloaded = some s ∧
      s.applied = 4 ∧ s.committed = 4 := by decide +kernel
  have halong : Run.Along step (fun s a => Honest s a ∧ Reaching s a) (Sys.new fourFrames 0 1)
      reloaded := Run.along_mono primary_of_passes (by decide +kernel)
  exact ⟨s, hs, hnumbers,
    (replica_follows fourFrames_committed (Nat.zero_le _) 1 hs halong).1⟩

/-- A frame that is committed and whose number cannot be recorded, before a restart. -/
def unrecorded : List (Action ℕ) :=
  [.handshake (.ok 7) (.error .other) true, .nextFrames (.ok 1), .next .none, .record false, .crash]

/-- The database has a page of the first frame when no number is committed yet; and the number of that
frame is committed, but not any more after the restart. -/
theorem replica_ahead :
    Run.Along step (fun s a => Honest s a ∧ Reaching s a) (Sys.new fourFrames 0 1) unrecorded ∧
      (Run.exec step (Sys.new fourFrames 0 1) (unrecorded.take 3)).map
        (fun s => (s.client.committedFrameNo, s.injector.db 1)) = some (none, some 10) ∧
      (Run.exec step (Sys.new fourFrames 0 1) (unrecorded.take 4)).map
        (fun s => s.client.committedFrameNo) = some (some 0) ∧
      (Run.exec step (Sys.new fourFrames 0 1) unrecorded).map
        (fun s => s.client.committedFrameNo) = some none :=
  ⟨Run.along_mono primary_of_passes (by decide +kernel), by decide +kernel, by decide +kernel,
    by decide +kernel⟩

end Example

end SqlAnywhere.Replication.Replicator
