import SqlAnywhere.Server.CommittedLog

/-!
# A stream of frames while the log grows and is compacted

A `FrameStream` looks a frame up, yields it and goes on to the next one.  When the frame is not in the
log yet, it ends, or it subscribes to the numbers that the logger announces and waits for one that it
does not know.  Here each step of `poll_next` that reads something shared is a step of its own, with
commits, announcements and compactions in between.

* `FrameStream`, `poll`, `Sys`, `step` — the stream, the logger and their steps
* `Inv` — what the stream knows of the log in each of its states
* `frame_stream_of_run` — what the stream yields, and when it waits
-/

namespace SqlAnywhere.Server.LogStream

open List
open ReplicationLog ForkLog

variable {α : Type*}

/-- What a look-up returns. -/
inductive Lookup (α : Type*)
  | frame (frame : Frame α)
  | ahead
  | snapshotRequired
  /-- the log could not be read -/
  | failed

inductive State (α : Type*)
  | init
  /-- the look-up, once it has been made -/
  | waitingFrame (lookup : Option (Lookup α))
  /-- subscribed to the notifier, which had sent `seen` numbers by then -/
  | subscribed (seen : ℕ)
  | waitingFrameNo (seen : ℕ)
  | closed

/-- `FrameStream`, with what it was asked for and what it has yielded. -/
structure FrameStream (α : Type*) where
  currentFrameNo : ℕ
  maxAvailableFrameNo : Option ℕ
  state : State α
  waitForMore : Bool
  producedFrames : ℕ
  maxFrames : Option ℕ
  transactionBoundary : Bool
  offset : ℕ
  yielded : List (Frame α)
  /-- an error was yielded -/
  failed : Bool

/-- The logger and a stream of its log. -/
structure Sys (α : Type*) where
  /-- all frames that were ever committed -/
  history : List (Frame α)
  log : LogFile α
  /-- the number of the last commit, between the commit and its announcement -/
  unannounced : Option (Option ℕ)
  /-- the value of `new_frame_notifier`, and how often it was sent -/
  announced : Option ℕ
  version : ℕ
  loggerClosed : Bool
  stream : Option (FrameStream α)

/-- The order of `Option<FrameNo>`: `none` comes before every number. -/
def newer : Option ℕ → Option ℕ → Bool
  | some a, some b => b < a
  | some _, none => true
  | none, _ => false

namespace FrameStream

def new (offset : ℕ) (waitForMore : Bool) (maxFrames announced : Option ℕ) : FrameStream α :=
  ⟨offset, announced, .init, waitForMore, 0, maxFrames, false, offset, [], false⟩

/-- `transition_state_next_frame`, of a stream that is not closed -/
def transitionStateNextFrame (f : FrameStream α) : FrameStream α :=
  if f.maxFrames.any (· ≤ f.producedFrames) && f.transactionBoundary then
    { f with state := .closed }
  else { f with state := .waitingFrame none }

/-- A frame is yielded. -/
def produce (f : FrameStream α) (frame : Frame α) : FrameStream α :=
  { f with
    currentFrameNo := f.currentFrameNo + 1
    producedFrames := f.producedFrames + 1
    transactionBoundary := frame.sizeAfter ≠ 0
    yielded := f.yielded ++ [frame] }.transitionStateNextFrame

/-- The next step of `poll_next`. -/
def poll (s : Sys α) (f : FrameStream α) : FrameStream α :=
  if s.loggerClosed then { f with failed := true }
  else
    match f.state with
    | .init => f.transitionStateNextFrame
    | .waitingFrame none => f
    | .waitingFrame (some (.frame frame)) => f.produce frame
    | .waitingFrame (some .ahead) =>
      if f.waitForMore then { f with state := .subscribed s.version }
      else { f with state := .closed }
    | .waitingFrame (some _) => { f with state := .closed, failed := true }
    | .subscribed seen =>
      if newer s.announced f.maxAvailableFrameNo then
        { f with maxAvailableFrameNo := s.announced }.transitionStateNextFrame
      else { f with state := .waitingFrameNo seen }
    | .waitingFrameNo seen =>
      if seen = s.version then f
      else { f with maxAvailableFrameNo := s.announced }.transitionStateNextFrame
    | .closed => f

/-- The look-up of the next frame, in a thread of its own. -/
def lookup (s : Sys α) (f : FrameStream α) (fails : Bool) : Option (FrameStream α) :=
  match f.state with
  | .waitingFrame none =>
    let lookup : Lookup α :=
      if fails then .failed
      else
        match s.log.frame f.currentFrameNo with
        | .ok frame => .frame frame
        | .error .ahead => .ahead
        | .error .snapshotRequired => .snapshotRequired
    some { f with state := .waitingFrame (some lookup) }
  | _ => none

/-- The stream waits, and is not woken before the next announcement. -/
def Parked (s : Sys α) (f : FrameStream α) : Prop := f.state = .waitingFrameNo s.version

end FrameStream

inductive Action (α : Type*)
  /-- a transaction is committed to the log -/
  | commit (pages : List (ℕ × α)) (last : ℕ × α) (sizeAfter : ℕ)
  | announce
  | compact
  | close
  | stream (offset : ℕ) (waitForMore : Bool) (maxFrames : Option ℕ)
  | lookup (fails : Bool)
  | poll

namespace Sys

def new : Sys α := ⟨[], .new 0, none, none, 0, false, none⟩

def commit (s : Sys α) (frames : List (Frame α)) : Sys α :=
  let log := { s.log with frames := s.log.frames ++ frames }
  { s with history := s.history ++ frames, log, unannounced := some log.lastFrameNo }

/-- `do_compaction`, as far as readers see it -/
def compact (s : Sys α) : Sys α :=
  { s with log := .new (s.log.startFrameNo + s.log.frames.length) }

end Sys

def step (s : Sys α) : Action α → Option (Sys α)
  | .commit pages last sizeAfter =>
    if s.unannounced = none ∧ sizeAfter ≠ 0 then
      some (s.commit (transaction s.history.length pages last sizeAfter))
    else none
  | .announce => s.unannounced.map fun frameNo =>
      { s with unannounced := none, announced := frameNo, version := s.version + 1 }
  | .compact => if s.log.frames = [] then none else some s.compact
  | .close => some { s with loggerClosed := true }
  | .stream offset waitForMore maxFrames =>
    match s.stream with
    | none => some { s with stream := some (.new offset waitForMore maxFrames s.announced) }
    | some _ => none
  | .lookup fails => s.stream.bind fun f =>
      (f.lookup s fails).map fun f => { s with stream := some f }
  | .poll => s.stream.map fun f => { s with stream := some (f.poll s) }

/-! ### What the stream knows -/

/-- All numbers of an option are below `n`. -/
def Below (o : Option ℕ) (n : ℕ) : Prop := ∀ k, o = some k → k < n

theorem Below.mono {o : Option ℕ} {n n' : ℕ} (h : Below o n) (hle : n ≤ n') : Below o n' :=
  fun k hk => Nat.lt_of_lt_of_le (h k hk) hle

theorem Below.of_not_newer {o o' : Option ℕ} {n : ℕ} (h : ¬ newer o o' = true) (h' : Below o' n) :
    Below o n := by
  rintro k rfl
  cases o' with
  | none => exact absurd rfl h
  | some k' =>
    have hk' := h' k' rfl
    have : ¬ k' < k := fun hlt => h (decide_eq_true hlt)
    omega

/-- The logger has announced nothing but what is committed. -/
structure LoggerInv (s : Sys α) : Prop where
  committed : Committed s.history
  log : LogOf s.history s.log
  announced : Below s.announced s.history.length
  unannounced : ∀ frameNo, s.unannounced = some frameNo → Below frameNo s.history.length

/-- The frames that were yielded are those of the log. -/
structure Yielded (s : Sys α) (f : FrameStream α) : Prop where
  known : Below f.maxAvailableFrameNo s.history.length
  current : f.currentFrameNo = f.offset + f.yielded.length
  frames : ∀ (i : ℕ) (frame : Frame α), f.yielded[i]? = some frame →
    s.history[f.offset + i]? = some frame
  boundary : f.transactionBoundary = true → f.currentFrameNo ∈ commitsOf s.history

/-- Nothing was yielded, or the last frame ends a transaction. -/
def Whole (s : Sys α) (f : FrameStream α) : Prop :=
  f.yielded = [] ∨ f.currentFrameNo ∈ commitsOf s.history

/-- What is known in a state of the stream. -/
def At (s : Sys α) (f : FrameStream α) : State α → Prop
  | .waitingFrame (some (.frame frame)) => s.history[f.currentFrameNo]? = some frame
  | .waitingFrame (some .ahead) => Whole s f ∧ Below f.maxAvailableFrameNo f.currentFrameNo
  | .subscribed seen => seen ≤ s.version ∧ Below f.maxAvailableFrameNo f.currentFrameNo
  | .waitingFrameNo seen =>
    seen ≤ s.version ∧ (seen = s.version → Below s.announced f.currentFrameNo)
  | .closed => f.failed = false → Whole s f
  | _ => True

structure Inv (s : Sys α) : Prop where
  logger : LoggerInv s
  yielded : ∀ f, s.stream = some f → Yielded s f
  state : ∀ f, s.stream = some f → At s f f.state

/-- What is known stays so while the log grows, and when the stream fails.  A stream that waits has not
seen an announcement that comes now. -/
theorem At.grow {s s' : Sys α} {f : FrameStream α} {state : State α} {failed : Bool}
    {more : List (Frame α)} (h : At s f state) (hhistory : s'.history = s.history ++ more)
    (hversion : s.version ≤ s'.version)
    (hannounced : s'.version = s.version → s'.announced = s.announced)
    (hfailed : failed = false → f.failed = false) : At s' { f with failed } state := by
  have hwhole : Whole s f → Whole s' { f with failed } := by
    rintro (hnil | hmem)
    · exact .inl hnil
    · refine .inr ?_
      rw [hhistory]
      exact mem_commitsOf_append hmem
  rcases state with _ | (_ | (frame | _ | _ | _)) | seen | seen | _
  · trivial
  · trivial
  · show s'.history[f.currentFrameNo]? = some frame
    have h : s.history[f.currentFrameNo]? = some frame := h
    rw [hhistory, List.getElem?_append_left (List.getElem?_eq_some_iff.1 h).1]
    exact h
  · exact ⟨hwhole h.1, h.2⟩
  · trivial
  · trivial
  · exact ⟨Nat.le_trans h.1 hversion, h.2⟩
  · refine ⟨Nat.le_trans h.1 hversion, fun hseen => ?_⟩
    have hsame : s'.version = s.version := Nat.le_antisymm (hseen ▸ h.1) hversion
    rw [hannounced hsame]
    exact h.2 (hseen.trans hsame)
  · exact fun hok => hwhole (h (hfailed hok))

/-! ### The steps of the stream -/

namespace Yielded

variable {s : Sys α} {f : FrameStream α}

variable (h : Yielded s f)
include h

theorem transition :
    Yielded s f.transitionStateNextFrame ∧
      At s f.transitionStateNextFrame f.transitionStateNextFrame.state := by
  unfold FrameStream.transitionStateNextFrame
  split
  · next hclose =>
    obtain ⟨-, hboundary⟩ := Bool.and_eq_true_iff.1 hclose
    exact ⟨{ h with }, fun _ => .inr (h.boundary hboundary)⟩
  · exact ⟨{ h with }, trivial⟩

theorem produce (hlogger : LoggerInv s) {frame : Frame α}
    (hframe : s.history[f.currentFrameNo]? = some frame) :
    Yielded s (f.produce frame) ∧ At s (f.produce frame) (f.produce frame).state := by
  refine transition ⟨h.known, ?_, ?_, ?_⟩
  · show f.currentFrameNo + 1 = f.offset + (f.yielded ++ [frame]).length
    have := h.current
    rw [length_append, length_singleton]
    omega
  · intro i frame' hi
    have hi : (f.yielded ++ [frame])[i]? = some frame' := hi
    rw [getElem?_append] at hi
    split at hi
    · exact h.frames i frame' hi
    rename_i hlt
    rw [getElem?_singleton] at hi
    split_ifs at hi with hzero
    cases hi
    show s.history[f.offset + i]? = some frame
    rw [← hframe, h.current]
    congr 1
    omega
  · intro hboundary
    refine (mem_commitsOf hlogger.committed.numbered).2 (.inr ⟨_, frame, hframe, ?_, rfl⟩)
    exact of_decide_eq_true hboundary

theorem current_le (hne : f.yielded ≠ []) :
    f.currentFrameNo ≤ s.history.length := by
  have hpos : 0 < f.yielded.length := List.length_pos_iff.2 hne
  obtain ⟨frame, hframe⟩ : ∃ frame, f.yielded[f.yielded.length - 1]? = some frame :=
    ⟨_, List.getElem?_eq_getElem (by omega)⟩
  have hlt := (List.getElem?_eq_some_iff.1 (h.frames _ frame hframe)).1
  have := h.current
  omega

/-- A frame that is ahead of the log: all of the log was yielded. -/
theorem ahead (hlogger : LoggerInv s)
    (hahead : s.log.frame f.currentFrameNo = .error .ahead) :
    Whole s f ∧ Below f.maxAvailableFrameNo f.currentFrameNo := by
  have hle := hlogger.log.frame_ahead hahead
  refine ⟨?_, h.known.mono hle⟩
  by_cases hnil : f.yielded = []
  · exact .inl hnil
  have hcurrent : f.currentFrameNo = s.history.length := by
    have := h.current_le hnil
    omega
  refine .inr ?_
  rw [hcurrent]
  exact hlogger.committed.last

theorem poll (hlogger : LoggerInv s) (hstate : At s f f.state) :
    Yielded s (f.poll s) ∧ At s (f.poll s) (f.poll s).state := by
  unfold FrameStream.poll
  split
  · exact ⟨{ h with }, hstate.grow (append_nil _).symm (Nat.le_refl _) (fun _ => rfl) nofun⟩
  split
  · exact h.transition
  · next heq => exact ⟨h, hstate⟩
  · next frame heq =>
    rw [heq] at hstate
    exact h.produce hlogger hstate
  · next heq =>
    rw [heq] at hstate
    split
    · exact ⟨{ h with }, Nat.le_refl _, hstate.2⟩
    · exact ⟨{ h with }, fun _ => hstate.1⟩
  · exact ⟨{ h with }, nofun⟩
  · next seen heq =>
    rw [heq] at hstate
    split
    · exact Yielded.transition { h with known := hlogger.announced }
    · next hnot => exact ⟨{ h with }, hstate.1, fun _ => .of_not_newer hnot hstate.2⟩
  · next seen heq =>
    split
    · exact ⟨h, hstate⟩
    · exact Yielded.transition { h with known := hlogger.announced }
  · exact ⟨h, hstate⟩

theorem lookup (hlogger : LoggerInv s) {fails : Bool} {f' : FrameStream α}
    (hlookup : f.lookup s fails = some f') : Yielded s f' ∧ At s f' f'.state := by
  unfold FrameStream.lookup at hlookup
  split at hlookup
  swap
  · cases hlookup
  cases hlookup
  refine ⟨{ h with }, ?_⟩
  split
  · trivial
  split
  · next frame hok => exact hlogger.log.frame_ok hok
  · next hahead => exact h.ahead hlogger hahead
  · trivial

end Yielded

/-! ### Whole runs -/

namespace Inv

variable {s s' : Sys α}

theorem new : Inv (Sys.new : Sys α) where
  logger := ⟨⟨nofun, mem_singleton.2 rfl⟩, ⟨Nat.le_refl _, rfl⟩, nofun, nofun⟩
  yielded := nofun
  state := nofun

theorem stream (h : Inv s) {f : FrameStream α} (hyielded : Yielded s f) (hstate : At s f f.state) :
    Inv { s with stream := some f } where
  logger := { h.logger with }
  yielded := by
    rintro f' ⟨⟩
    exact { hyielded with }
  state := by
    rintro f' ⟨⟩
    exact hstate.grow (append_nil _).symm (Nat.le_refl _) (fun _ => rfl) id

theorem commit (h : Inv s) (pages : List (ℕ × α)) (last : ℕ × α) {sizeAfter : ℕ}
    (hsize : sizeAfter ≠ 0) :
    Inv (s.commit (transaction s.history.length pages last sizeAfter)) where
  logger :=
    { committed := committed_append h.logger.committed pages last hsize
      log := h.logger.log.append _
      announced := h.logger.announced.mono (by simp [Sys.commit])
      unannounced := by
        rintro frameNo ⟨⟩ k hk
        have hlast := (h.logger.log.append _).lastFrameNo_some hk
        exact Nat.lt_of_lt_of_eq (Nat.lt_succ_self k) hlast.symm }
  yielded f hf :=
    { h.yielded f hf with
      known := (h.yielded f hf).known.mono (by simp [Sys.commit])
      frames := by
        intro i frame hi
        have hframe := (h.yielded f hf).frames i frame hi
        show (s.history ++ _)[f.offset + i]? = some frame
        rw [List.getElem?_append_left (List.getElem?_eq_some_iff.1 hframe).1]
        exact hframe
      boundary := fun hb => mem_commitsOf_append ((h.yielded f hf).boundary hb) }
  state f hf := (h.state f hf).grow rfl (Nat.le_refl _) (fun _ => rfl) id

theorem announce (h : Inv s) {frameNo : Option ℕ} (hframeNo : s.unannounced = some frameNo) :
    Inv { s with unannounced := none, announced := frameNo, version := s.version + 1 } where
  logger := { h.logger with announced := h.logger.unannounced frameNo hframeNo, unannounced := nofun }
  yielded f hf := { h.yielded f hf with }
  state f hf := (h.state f hf).grow (append_nil _).symm (Nat.le_succ _)
    (fun heq => absurd heq (Nat.succ_ne_self _)) id

theorem step (h : Inv s) {a : Action α} (hstep : step s a = some s') : Inv s' := by
  cases a with
  | commit pages last sizeAfter =>
    rw [LogStream.step] at hstep
    split at hstep
    · next hcan =>
      cases hstep
      exact h.commit pages last hcan.2
    · cases hstep
  | announce =>
    obtain ⟨frameNo, hframeNo, rfl⟩ := Option.map_eq_some_iff.1 hstep
    exact h.announce hframeNo
  | compact =>
    rw [LogStream.step] at hstep
    split at hstep
    · cases hstep
    cases hstep
    exact
      { logger := { h.logger with log := h.logger.log.swapped }
        yielded := fun f hf => { h.yielded f hf with }
        state := h.state }
  | close =>
    cases hstep
    exact
      { logger := { h.logger with }
        yielded := fun f hf => { h.yielded f hf with }
        state := h.state }
  | stream offset waitForMore maxFrames =>
    rw [LogStream.step] at hstep
    split at hstep
    · cases hstep
      exact h.stream ⟨h.logger.announced, rfl, nofun, nofun⟩ trivial
    · cases hstep
  | lookup fails =>
    obtain ⟨f, hf, hstep⟩ := Option.bind_eq_some_iff.1 hstep
    obtain ⟨f', hf', rfl⟩ := Option.map_eq_some_iff.1 hstep
    obtain ⟨hyielded, hstate⟩ := (h.yielded f hf).lookup h.logger hf'
    exact h.stream hyielded hstate
  | poll =>
    obtain ⟨f, hf, rfl⟩ := Option.map_eq_some_iff.1 hstep
    obtain ⟨hyielded, hstate⟩ := (h.yielded f hf).poll h.logger (h.state f hf)
    exact h.stream hyielded hstate

end Inv

/-- **A stream while the log grows and is compacted**, whatever comes between its steps.  It has yielded
the frames with consecutive numbers from its offset, each as it was committed; where it has ended
without an error, the last one ends a transaction, so that a batch that starts between transactions
is a sequence of whole ones; and while it waits, the frame it needs has not been announced. -/
theorem frame_stream_of_run {actions : List (Action α)} {s : Sys α}
    (hexec : Run.exec step Sys.new actions = some s) {f : FrameStream α}
    (hstream : s.stream = some f) :
    (f.currentFrameNo = f.offset + f.yielded.length ∧
        ∀ (i : ℕ) (frame : Frame α), f.yielded[i]? = some frame →
          frame.frameNo = f.offset + i ∧ s.history[f.offset + i]? = some frame) ∧
      (f.state = .closed → f.failed = false →
        (∀ last, f.yielded.getLast? = some last → last.sizeAfter ≠ 0) ∧
          (f.offset ∈ commitsOf s.history → f.offset + f.yielded.length ∈ commitsOf s.history)) ∧
      (f.Parked s → ∀ n, s.announced = some n → n < f.currentFrameNo) := by
  have hinv : Inv s := Run.exec_keeps (fun s a s' h hstep => h.step hstep) Inv.new hexec
  have hyielded := hinv.yielded f hstream
  have hstate := hinv.state f hstream
  refine ⟨⟨hyielded.current, ?_⟩, ?_, ?_⟩
  · intro i frame hi
    have hframe := hyielded.frames i frame hi
    exact ⟨hinv.logger.committed.numbered _ frame hframe, hframe⟩
  · intro hclosed hfailed
    rw [hclosed] at hstate
    rcases hstate hfailed with hnil | hmem
    · refine ⟨?_, ?_⟩
      · intro last hlast
        simp [hnil] at hlast
      · intro hoffset
        rw [hnil]
        exact hoffset
    · refine ⟨?_, fun _ => hyielded.current ▸ hmem⟩
      intro last hlast
      rw [List.getLast?_eq_getElem?] at hlast
      have hlength := (List.getElem?_eq_some_iff.1 hlast).1
      have hframe := hyielded.frames _ last hlast
      have hcurrent := hyielded.current
      rcases (mem_commitsOf hinv.logger.committed.numbered).1 hmem with hzero |
        ⟨i, frame, hi, hsize, heq⟩
      · omega
      · rw [show f.offset + (f.yielded.length - 1) = i by omega, hi] at hframe
        cases hframe
        exact hsize
  · intro hparked
    rw [FrameStream.Parked] at hparked
    rw [hparked] at hstate
    exact hstate.2 rfl

/-- A batch of at most one frame gets both frames of a transaction, and none of the next one that is
committed meanwhile. -/
def batch : List (Action ℕ) :=
  [.commit [(1, 10)] (2, 11) 2, .announce, .stream 0 false (some 1), .poll, .lookup false, .poll,
    .commit [] (1, 12) 2, .announce, .lookup false, .poll]

theorem frame_stream_of_batch :
    ∃ s f, Run.exec step Sys.new batch = some s ∧ s.stream = some f ∧ s.history.length = 3 ∧
      f.currentFrameNo = 2 ∧ 0 + f.yielded.length = 2 := by
  obtain ⟨s, hexec, hhistory, f, hstream, hcurrent, hoffset⟩ :
      ∃ s, Run.exec step Sys.new batch = some s ∧ s.history.length = 3 ∧
        ∃ f, s.stream = some f ∧ f.currentFrameNo = 2 ∧ f.offset = 0 := by decide +kernel
  refine ⟨s, f, hexec, hstream, hhistory, hcurrent, ?_⟩
  have hyielded := (frame_stream_of_run hexec hstream).1.1
  omega

end SqlAnywhere.Server.LogStream
