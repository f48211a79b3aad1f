import SqlAnywhere.Server.HttpStreams

/-!
# The statements of the requests on a stream

A pipeline runs its statements while it has the guard of its stream, and gives the baton back after
the last one.  A cursor gives it back at once and runs its statements in a task of its own.  The
connection is locked for one statement at a time.

* `Sys`, `Action`, `Sys.step` — the table of streams, and the statements each request has left
* `Sys.InOrder` — statements start in the order of their requests
* `Sys.Careful`, `Sys.in_order` — so it is where no cursor is overtaken
-/

namespace SqlAnywhere.Server.HttpStreams

open Function

variable {ι ρ δ σ : Type*}

/-- A request that has acquired a stream: the connection it runs on, when it came, and the
statements it has left. -/
structure Request (ρ σ : Type*) where
  conn : Option ρ
  turn : ℕ
  cursor : Bool
  left : List σ
  running : Bool
  begun : Bool
  deriving DecidableEq

def Request.Done (request : Request ρ σ) : Prop := request.left = [] ∧ request.running = false

/-- A connection is named after the request that has opened it. -/
structure Sys (ι ρ σ : Type*) where
  streams : State ι ρ ρ
  requests : ρ → Option (Request ρ σ)
  /-- the connections on which a statement is running -/
  locked : ρ → Bool
  clock : ℕ

/-- A server without streams. -/
def Sys.new (now : ℕ) : Sys ι ρ σ := ⟨.new now, fun _ => none, fun _ => false, 0⟩

inductive Step (ι ρ σ : Type*)
  /-- a request with a baton -/
  | acquire (r : ρ) (baton : ι × ℕ) (cursor : Bool) (statements : List σ)
  /-- a request without one -/
  | create (r : ρ) (id : ι) (batonSeq : ℕ) (cursor : Bool) (statements : List σ)
  /-- the next statement of a request starts, under the lock of its connection -/
  | start (r : ρ)
  | finish (r : ρ)
  | closeDb (r : ρ)
  /-- a pipeline that is done, or a cursor -/
  | release (r : ρ)
  | drop (r : ρ) (now : ℕ)
  | pump (now : ℕ)

section Steps

variable [DecidableEq ι] [DecidableEq ρ] {π : Type*} {f f' : π → Option δ}

/-- A request comes to a stream. -/
def Sys.enter (s : Sys ι ρ σ) (r : ρ) (streams : State ι ρ ρ) (conn : Option ρ) (cursor : Bool)
    (statements : List σ) : Sys ι ρ σ where
  streams := streams
  requests := Function.update s.requests r (some ⟨conn, s.clock, cursor, statements, false, false⟩)
  locked := s.locked
  clock := s.clock + 1

/-- A request goes on, with the lock of its connection or without it. -/
def Sys.setRequest (s : Sys ι ρ σ) (r : ρ) (request : Request ρ σ) (conn : ρ) (locked : Bool) :
    Sys ι ρ σ :=
  { s with
    requests := Function.update s.requests r (some request)
    locked := Function.update s.locked conn locked }

/-- Take a step.  The statements of a pipeline whose handler was dropped still run in their thread.

The connections run their programs themselves.  Left out are those of a replica: a batch whose answer
is too large for the replica ends there with an error and its baton is given back, while the primary
goes on with the batch. -/
def Sys.step (s : Sys ι ρ σ) : Step ι ρ σ → Option (Sys ι ρ σ)
  | .acquire r baton cursor statements =>
    match s.requests r, s.streams.guards r with
    | none, none =>
      match s.streams.lookUp baton with
      | .error _ => some s
      | .ok stream =>
        some (s.enter r (s.streams.take r baton stream) stream.db cursor statements)
    | _, _ => none
  | .create r id batonSeq cursor statements =>
    match s.requests r, s.streams.guards r, s.streams.handles id with
    | none, none, none =>
      some (s.enter r (s.streams.create r r id batonSeq) (some r) cursor statements)
    | _, _, _ => none
  | .start r =>
    match s.requests r with
    | some ⟨some conn, turn, cursor, _ :: left, false, _⟩ =>
      if s.locked conn then none
      else some (s.setRequest r ⟨some conn, turn, cursor, left, true, true⟩ conn true)
    | _ => none
  | .finish r =>
    match s.requests r with
    | some ⟨some conn, turn, cursor, left, true, begun⟩ =>
      some (s.setRequest r ⟨some conn, turn, cursor, left, false, begun⟩ conn false)
    | _ => none
  | .closeDb r => (s.streams.step (.closeDb r)).map fun streams => { s with streams := streams }
  | .release r =>
    match s.requests r with
    | some ⟨_, _, cursor, left, running, _⟩ =>
      if cursor || (left.isEmpty && !running) then
        (s.streams.step (.release r)).map fun streams => { s with streams := streams }
      else none
    | none => none
  | .drop r now => (s.streams.step (.drop r now)).map fun streams => { s with streams := streams }
  | .pump now => some { s with streams := s.streams.pumpExpire now }

/-- Once a statement of a request has started, those of the requests that came to its connection
before have all finished. -/
def Sys.InOrder (s : Sys ι ρ σ) : Prop :=
  ∀ r₁ r₂ first second c, s.requests r₁ = some first → s.requests r₂ = some second →
    first.conn = some c → second.conn = some c → first.turn < second.turn → second.begun = true →
    first.Done

/-- When a stream is acquired, no cursor has statements left on its connection. -/
def Sys.Careful (s : Sys ι ρ σ) : Step ι ρ σ → Prop
  | .acquire _ baton _ _ =>
    ∀ stream, s.streams.lookUp baton = .ok stream → ∀ r request, s.requests r = some request →
      request.conn = stream.db → request.cursor = true → request.Done
  | _ => True

/-! ### Where a connection is -/

/-- A connection is in the table or with a guard. -/
inductive Place (ι ρ : Type*)
  | table (id : ι)
  | guard (r : ρ)

/-- The connection of the stream in a place. -/
def State.connAt (s : State ι ρ δ) : Place ι ρ → Option δ
  | .table id =>
    match s.handles id with
    | some (.available stream) => stream.db
    | _ => none
  | .guard r => (s.guards r).bind (·.stream.db)

/-- Each connection is in one place. -/
def Apart {π : Type*} (f : π → Option δ) : Prop :=
  ∀ p q c, f p = some c → f q = some c → p = q

section

omit [DecidableEq ι] [DecidableEq ρ]

variable (h : Apart f)
include h

theorem Apart.of_imp (himp : ∀ p c, f' p = some c → f p = some c) : Apart f' :=
  fun p q c hp hq => h p q c (himp p c hp) (himp q c hq)

theorem Apart.of_others {q : π}
    (hnew : ∀ x c, x ≠ q → f' x = some c → f' q ≠ some c)
    (hothers : ∀ x c, x ≠ q → f' x = some c → f x = some c) : Apart f' := by
  intro x y c hx hy
  by_cases hxq : x = q
  · by_cases hyq : y = q
    · rw [hxq, hyq]
    · exact absurd (hxq ▸ hx) (hnew y c hyq hy)
  · by_cases hyq : y = q
    · exact absurd (hyq ▸ hy) (hnew x c hxq hx)
    · exact h x y c (hothers x c hxq hx) (hothers y c hyq hy)

theorem Apart.move {p q : π}
    (hmoved : ∀ c, f' q = some c → f p = some c) (hleft : f' p = none)
    (hothers : ∀ x c, x ≠ q → f' x = some c → f x = some c) : Apart f' := by
  refine h.of_others (fun x c hxq hx hq => ?_) hothers
  have hxp : x = p := h x p c (hothers x c hxq hx) (hmoved c hq)
  simp [hxp, hleft] at hx

theorem Apart.add {q : π} {c : δ} (hnew : ∀ p, f p ≠ some c) (hadded : f' q = some c)
    (hothers : ∀ x c, x ≠ q → f' x = some c → f x = some c) : Apart f' := by
  refine h.of_others (fun x c' hxq hx hq => ?_) hothers
  rw [hadded] at hq
  cases hq
  exact hnew x (hothers x _ hxq hx)

end

/-- The connection of an entry of the table. -/
def Handle.conn : Option (Handle ι δ) → Option δ
  | some (.available stream) => stream.db
  | _ => none

variable {t t' : State ι ρ δ} {r : ρ} {id : ι} {guard : Guard ι δ} {now : ℕ} {p : Place ι ρ}
  {guard' : Option (Guard ι δ)} {stream : Stream ι δ}

omit [DecidableEq ι] [DecidableEq ρ] in
theorem connAt_congr (htable : ∀ id, p = .table id → t'.handles id = t.handles id)
    (hguard : ∀ r, p = .guard r → t'.guards r = t.guards r) : t'.connAt p = t.connAt p := by
  cases p with
  | table id => simp only [State.connAt, htable id rfl]
  | guard r => simp only [State.connAt, hguard r rfl]

theorem connAt_moved {handle : Option (Handle ι δ)}
    (hhandles : t'.handles = update t.handles id handle)
    (hguards : t'.guards = update t.guards r guard') :
    t'.connAt (.table id) = Handle.conn handle ∧
      t'.connAt (.guard r) = guard'.bind (·.stream.db) ∧
        ∀ p, p ≠ .table id → p ≠ .guard r → t'.connAt p = t.connAt p := by
  refine ⟨?_, ?_, fun p htable hguard => connAt_congr ?_ ?_⟩
  · simp only [State.connAt, hhandles, update_self, Handle.conn]
  · simp only [State.connAt, hguards, update_self]
  · rintro id' rfl
    rw [hhandles, update_of_ne fun heq => htable (by rw [heq])]
  · rintro r' rfl
    rw [hguards, update_of_ne fun heq => hguard (by rw [heq])]

omit [DecidableEq ι] in
theorem connAt_setGuard (t t' : State ι ρ δ) (hhandles : t'.handles = t.handles)
    (hguards : t'.guards = update t.guards r guard') :
    t'.connAt (.guard r) = guard'.bind (·.stream.db) ∧
      ∀ p, p ≠ .guard r → t'.connAt p = t.connAt p := by
  refine ⟨?_, fun p hguard => connAt_congr (fun id _ => congrFun hhandles id) ?_⟩
  · simp only [State.connAt, hguards, update_self]
  · rintro r' rfl
    rw [hguards, update_of_ne fun heq => hguard (by rw [heq])]

theorem connAt_entered (t t' : State ι ρ δ) {guard' : Guard ι δ}
    (hhandles : t'.handles = update t.handles id (some .acquired))
    (hguards : t'.guards = update t.guards r (some guard')) :
    t'.connAt (.table id) = none ∧ t'.connAt (.guard r) = guard'.stream.db ∧
      ∀ p c, p ≠ .guard r → t'.connAt p = some c → t.connAt p = some c := by
  obtain ⟨hleft, hself, hsame⟩ := connAt_moved hhandles hguards
  refine ⟨hleft, hself, fun p c hpr hp => ?_⟩
  by_cases hpt : p = .table id
  · rw [hpt, hleft] at hp
    cases hp
  · rw [← hsame p hpt hpr]
    exact hp

theorem guards_dropGuard :
    (t.dropGuard r guard now).guards = update t.guards r none := by
  simp only [State.dropGuard]
  cases t.handles guard.stream.streamId with
  | none => rfl
  | some handle =>
    cases handle with
    | acquired => cases guard.release <;> rfl
    | available | expired => rfl

theorem handles_dropGuard (hhandle : t.handles guard.stream.streamId = some .acquired)
    : (t.dropGuard r guard now).handles = update t.handles guard.stream.streamId
      (if guard.release then some (.available guard.stream) else none) := by
  simp only [State.dropGuard, hhandle]
  cases guard.release with
  | false => rfl
  | true => simp only [if_true, State.markExpire, State.setHandle, State.setGuard, update_idem]

/-- A guard that is dropped takes its stream back to the table or away. -/
theorem connAt_dropGuard (h : Inv t) (hr : t.guards r = some guard) (now : ℕ) :
    (∀ c, (t.dropGuard r guard now).connAt (.table guard.stream.streamId) = some c →
        guard.release = true ∧ t.connAt (.guard r) = some c) ∧
      (t.dropGuard r guard now).connAt (.guard r) = none ∧
        ∀ p, p ≠ .table guard.stream.streamId → p ≠ .guard r →
          (t.dropGuard r guard now).connAt p = t.connAt p := by
  have hconn : t.connAt (.guard r) = guard.stream.db := by simp only [State.connAt, hr]; rfl
  obtain ⟨htable, hguard, hothers⟩ :=
    connAt_moved (handles_dropGuard (h.held r guard hr)) (guards_dropGuard)
  refine ⟨fun c hc => ?_, hguard, hothers⟩
  rw [htable] at hc
  rw [hconn]
  cases hrelease : guard.release with
  | false =>
    rw [hrelease] at hc
    cases hc
  | true =>
    rw [hrelease] at hc
    exact ⟨rfl, hc⟩

section

omit [DecidableEq ρ]

/-- The guards stay, and no stream becomes available. -/
structure Fewer (t t' : State ι ρ δ) : Prop where
  guards : t'.guards = t.guards
  available : ∀ id stream, t'.handles id = some (.available stream) →
    t.handles id = some (.available stream)

variable (h : Fewer t t')
include h

theorem Fewer.setHandle {t'' : State ι ρ δ} {handle : Option (Handle ι δ)}
    (hhandles : t''.handles = update t'.handles id handle) (hguards : t''.guards = t'.guards)
    (hnot : ∀ stream, handle ≠ some (.available stream)) : Fewer t t'' := by
  refine ⟨hguards.trans h.guards, fun id' stream hstream => ?_⟩
  rw [hhandles] at hstream
  rcases of_update_eq_some hstream with ⟨-, hnew⟩ | ⟨-, hold⟩
  · exact absurd hnew (hnot stream)
  · exact h.available id' stream hold

theorem Fewer.expireLoop (queue : List (ι × ℕ)) : Fewer t (State.expireLoop now queue t') := by
  induction queue generalizing t' with
  | nil => exact ⟨h.guards, h.available⟩
  | cons p rest ih =>
    unfold State.expireLoop
    split_ifs
    · refine ih ?_
      unfold State.expire
      split
      · exact h.setHandle rfl rfl (by simp)
      · exact h
    · exact ⟨h.guards, h.available⟩

theorem Fewer.cleanupLoop (queue : List (ι × ℕ)) : Fewer t (State.cleanupLoop now queue t') := by
  induction queue generalizing t' with
  | nil => exact ⟨h.guards, h.available⟩
  | cons p rest ih =>
    unfold State.cleanupLoop
    split_ifs
    · split
      · exact ih (h.setHandle rfl rfl (by simp))
      · exact h.setHandle rfl rfl (by simp)
    · exact ⟨h.guards, h.available⟩

omit [DecidableEq ι] in
theorem Fewer.connAt {c : δ} (hp : t'.connAt p = some c) : t.connAt p = some c := by
  cases p with
  | guard r =>
    simp only [State.connAt, h.guards] at hp ⊢
    exact hp
  | table id =>
    simp only [State.connAt] at hp ⊢
    split at hp
    · next stream hstream =>
      rw [h.available id stream hstream]
      exact hp
    · cases hp

omit h

theorem fewer_pumpExpire (t : State ι ρ δ) (now : ℕ) : Fewer t (t.pumpExpire now) :=
  .cleanupLoop (.expireLoop ⟨rfl, fun _ _ hstream => hstream⟩ _) _

end

/-! ### The invariant -/

/-- What is known of a pipeline on the connection of the stream in `p`: it is done, or it has the
stream. -/
def Sys.Settled (s : Sys ι ρ σ) (p : Place ι ρ) (r : ρ) (request : Request ρ σ) : Prop :=
  request.Done ∨ p = .guard r ∧ ∃ guard, s.streams.guards r = some guard ∧ guard.release = false

structure Sys.Inv (s : Sys ι ρ σ) : Prop where
  streams : HttpStreams.Inv s.streams
  apart : Apart s.streams.connAt
  used : ∀ p c, s.streams.connAt p = some c → s.requests c ≠ none
  usedBy : ∀ r request c, s.requests r = some request → request.conn = some c → s.requests c ≠ none
  settled : ∀ p c, s.streams.connAt p = some c → ∀ r request, s.requests r = some request →
    request.conn = some c → request.cursor = false → s.Settled p r request
  turns : ∀ r request, s.requests r = some request → request.turn < s.clock
  order : ∀ r₁ r₂ first second c, s.requests r₁ = some first → s.requests r₂ = some second →
    first.conn = some c → second.conn = some c → first.turn < second.turn → first.Done

variable {s s' : Sys ι ρ σ} {streams : State ι ρ ρ} {statements : List σ} {cursor : Bool}
  {request : Request ρ σ} {stream : Stream ι ρ} {guard : Guard ι ρ}

omit [DecidableEq ρ] in
theorem inv_newSys : (Sys.new now : Sys ι ρ σ).Inv where
  streams := inv_new now
  apart := by
    intro p q c hp
    cases p <;> cases hp
  used := by
    intro p c hp
    cases p <;> cases hp
  usedBy := nofun
  settled := by
    intro p c hp
    cases p <;> cases hp
  turns := nofun
  order := nofun

omit [DecidableEq ι] [DecidableEq ρ] in
theorem Sys.Settled.of_guards {r' : ρ}
    (h : s.Settled p r' request)
    (hguard : p = .guard r' → s'.streams.guards r' = s.streams.guards r') :
    s'.Settled p r' request := by
  rcases h with hdone | ⟨hp, hheld⟩
  · exact Or.inl hdone
  · rw [← hguard hp] at hheld
    exact Or.inr ⟨hp, hheld⟩

/-- A statement starts or finishes: the request was not done, so none has come after it. -/
theorem Sys.Inv.setRequest (h : s.Inv) {old new : Request ρ σ} {conn : ρ} {locked : Bool}
    (hr : s.requests r = some old) (hnot : ¬ old.Done) (hconn : new.conn = old.conn)
    (hturn : new.turn = old.turn) (hcursor : new.cursor = old.cursor) :
    (s.setRequest r new conn locked).Inv := by
  have hsome : ∀ c, s.requests c ≠ none → (s.setRequest r new conn locked).requests c ≠ none := by
    intro c hc
    exact update_ne_none (Or.inl hc)
  have hback : ∀ r' request, (s.setRequest r new conn locked).requests r' = some request →
      ∃ request', s.requests r' = some request' ∧ request'.conn = request.conn ∧
        request'.turn = request.turn ∧ request'.cursor = request.cursor ∧
        (request'.Done → request.Done) := by
    intro r' request hr'
    rcases of_update_eq_some hr' with ⟨rfl, ⟨⟩⟩ | ⟨-, hr'⟩
    · exact ⟨old, hr, hconn.symm, hturn.symm, hcursor.symm, fun hdone => absurd hdone hnot⟩
    · exact ⟨request, hr', rfl, rfl, rfl, id⟩
  exact
    { h with
      used := fun p c hp => hsome c (h.used p c hp)
      usedBy := by
        intro r' request c hr' hc
        obtain ⟨request', hold, hconn', -⟩ := hback r' request hr'
        exact hsome c (h.usedBy r' request' c hold (hconn'.trans hc))
      settled := by
        intro p c hp r' request hr' hc hpipeline
        obtain ⟨request', hold, hconn', -, hcursor', hdone⟩ := hback r' request hr'
        exact (h.settled p c hp r' request' hold (hconn'.trans hc)
          (hcursor'.trans hpipeline)).imp_left hdone
      turns := by
        intro r' request hr'
        obtain ⟨request', hold, -, hturn', -⟩ := hback r' request hr'
        rw [← hturn']
        exact h.turns r' request' hold
      order := by
        intro r₁ r₂ first second c h₁ h₂ hc₁ hc₂ hlt
        obtain ⟨first', hold₁, hconn₁, hturn₁, -, hdone⟩ := hback r₁ first h₁
        obtain ⟨second', hold₂, hconn₂, hturn₂, -⟩ := hback r₂ second h₂
        rw [← hturn₁, ← hturn₂] at hlt
        exact hdone (h.order r₁ r₂ first' second' c hold₁ hold₂ (hconn₁.trans hc₁)
          (hconn₂.trans hc₂) hlt) }

omit [DecidableEq ρ] in
theorem Sys.Inv.setStreams (h : s.Inv) (hinv : HttpStreams.Inv streams)
    (hapart : Apart streams.connAt)
    (hplaces : ∀ p c, streams.connAt p = some c → ∃ q, s.streams.connAt q = some c ∧
      ∀ r request, s.requests r = some request → request.conn = some c → request.cursor = false →
        s.Settled q r request → ({ s with streams := streams } : Sys ι ρ σ).Settled p r request) :
    Sys.Inv { s with streams := streams } where
  __ := h
  streams := hinv
  apart := hapart
  used := by
    intro p c hp
    obtain ⟨q, hq, -⟩ := hplaces p c hp
    exact h.used q c hq
  settled := by
    intro p c hp r request hr hc hpipeline
    obtain ⟨q, hq, hkept⟩ := hplaces p c hp
    exact hkept r request hr hc hpipeline (h.settled q c hq r request hr hc hpipeline)

/-- A request comes to a stream whose connection no earlier one still uses. -/
theorem Sys.Inv.enter (h : s.Inv) {conn : Option ρ}
    (hr : s.requests r = none) (hinv : HttpStreams.Inv streams) (hapart : Apart streams.connAt)
    (hguard : ∃ guard, streams.guards r = some guard ∧ guard.release = false)
    (hconn : ∀ c, conn = some c → (s.requests c ≠ none ∨ c = r) ∧
      ∀ r' request, s.requests r' = some request → request.conn = some c → request.Done)
    (hothers : ∀ p c, p ≠ .guard r → streams.connAt p = some c → s.streams.connAt p = some c)
    (hself : streams.connAt (.guard r) = conn)
    (hguards : ∀ r', r' ≠ r → streams.guards r' = s.streams.guards r') :
    (s.enter r streams conn cursor statements).Inv := by
  have hsome : ∀ c, s.requests c ≠ none ∨ c = r →
      (s.enter r streams conn cursor statements).requests c ≠ none := by
    intro c hc
    exact update_ne_none hc
  exact
    { streams := hinv
      apart := hapart
      used := by
        intro p c hp
        by_cases hpr : p = .guard r
        · have hp : streams.connAt p = some c := hp
          rw [hpr, hself] at hp
          exact hsome c (hconn c hp).1
        · exact hsome c (Or.inl (h.used p c (hothers p c hpr hp)))
      usedBy := by
        intro r' request c hr' hc
        rcases of_update_eq_some hr' with ⟨-, ⟨⟩⟩ | ⟨-, hr'⟩
        · exact hsome c (hconn c hc).1
        · exact hsome c (Or.inl (h.usedBy r' request c hr' hc))
      settled := by
        intro p c hp r' request hr' hc hpipeline
        rcases of_update_eq_some hr' with ⟨rfl, ⟨⟩⟩ | ⟨hne, hr'⟩
        · -- the new request has the stream
          exact Or.inr ⟨hapart p (.guard r') c hp (hself.trans hc), hguard⟩
        · by_cases hpr : p = .guard r
          · have hp : streams.connAt p = some c := hp
            rw [hpr, hself] at hp
            exact Or.inl ((hconn c hp).2 r' request hr' hc)
          · exact (h.settled p c (hothers p c hpr hp) r' request hr' hc hpipeline).of_guards
              fun _ => hguards r' hne
      turns := by
        intro r' request hr'
        rcases of_update_eq_some hr' with ⟨-, ⟨⟩⟩ | ⟨-, hr'⟩
        · exact Nat.lt_succ_self _
        · exact Nat.lt_succ_of_lt (h.turns r' request hr')
      order := by
        intro r₁ r₂ first second c h₁ h₂ hc₁ hc₂ hlt
        rcases of_update_eq_some h₁ with ⟨-, ⟨⟩⟩ | ⟨-, h₁⟩
        · -- no turn comes after the one of the new request
          rcases of_update_eq_some h₂ with ⟨-, ⟨⟩⟩ | ⟨-, h₂⟩
          · exact absurd hlt (Nat.lt_irrefl _)
          · exact absurd (h.turns r₂ second h₂) (Nat.not_lt.2 (Nat.le_of_lt hlt))
        · rcases of_update_eq_some h₂ with ⟨-, ⟨⟩⟩ | ⟨-, h₂⟩
          · exact (hconn c hc₂).2 r₁ first h₁ hc₁
          · exact h.order r₁ r₂ first second c h₁ h₂ hc₁ hc₂ hlt }

theorem Sys.Inv.acquire (h : s.Inv) {baton : ι × ℕ} (hr : s.requests r = none)
    (hlookUp : s.streams.lookUp baton = .ok stream)
    (hcareful : ∀ r' request, s.requests r' = some request → request.conn = stream.db →
      request.cursor = true → request.Done) :
    (s.enter r (s.streams.take r baton stream) stream.db cursor statements).Inv := by
  obtain ⟨hhandle, -⟩ := lookUp_ok hlookUp
  have htable : s.streams.connAt (.table baton.1) = stream.db := by
    simp only [State.connAt, hhandle]
  obtain ⟨hleft, hself, hothers⟩ :=
    connAt_entered s.streams (s.streams.take r baton stream) rfl rfl
  refine h.enter hr (h.streams.take hlookUp) ?_ ⟨_, update_self .., rfl⟩ ?_ hothers hself
    (fun r' hne => update_of_ne hne ..)
  · refine h.apart.move (p := .table baton.1) (q := .guard r) ?_ hleft hothers
    intro c hc
    rw [htable, ← hself]
    exact hc
  · intro c hc
    rw [← htable] at hc
    refine ⟨Or.inl (h.used _ c hc), fun r' request hr' hconn => ?_⟩
    cases hpipeline : request.cursor with
    | true => exact hcareful r' request hr' (by rw [hconn, ← htable, hc]) hpipeline
    | false =>
      -- a pipeline that is not done still has the stream
      rcases h.settled _ c hc r' request hr' hconn hpipeline with hdone | ⟨hplace, -⟩
      · exact hdone
      · cases hplace

theorem Sys.Inv.create (h : s.Inv) {batonSeq : ℕ}
    (hr : s.requests r = none) (hid : s.streams.handles id = none) :
    (s.enter r (s.streams.create r r id batonSeq) (some r) cursor statements).Inv := by
  obtain ⟨-, hself, hothers⟩ :=
    connAt_entered s.streams (s.streams.create r r id batonSeq) rfl rfl
  have hnew : ∀ p, s.streams.connAt p ≠ some r := fun p hp => h.used p r hp hr
  refine h.enter hr (h.streams.create hid) (h.apart.add hnew hself hothers)
    ⟨_, update_self .., rfl⟩ ?_ hothers hself (fun r' hne => update_of_ne hne ..)
  rintro c ⟨⟩
  exact ⟨Or.inr rfl, fun r' request hr' hconn => absurd hr (h.usedBy r' request _ hr' hconn)⟩

omit [DecidableEq ι] [DecidableEq ρ] in
theorem Sys.Settled.of_ne {r' : ρ}
    (h : s.Settled p r' request) (hp : p ≠ .guard r)
    (hguards : ∀ r', r' ≠ r → streams.guards r' = s.streams.guards r') :
    ({ s with streams := streams } : Sys ι ρ σ).Settled p r' request :=
  h.of_guards fun hp' => hguards r' fun heq => hp (by rw [hp', heq])

variable (h : s.Inv)
include h

theorem Sys.Inv.closeDb
    (hr : s.streams.guards r = some ⟨stream, false⟩) :
    Sys.Inv { s with
      streams := s.streams.setGuard r (some ⟨{ stream with db := none }, false⟩) } := by
  obtain ⟨hnone, hsame⟩ := connAt_setGuard s.streams
    (s.streams.setGuard r (some ⟨{ stream with db := none }, false⟩)) rfl rfl
  have hplaces : ∀ p c, (s.streams.setGuard r (some ⟨{ stream with db := none }, false⟩)).connAt p =
      some c → p ≠ .guard r ∧ s.streams.connAt p = some c := by
    intro p c hp
    by_cases hpr : p = .guard r
    · simp [hpr, hnone] at hp
    · rw [hsame p hpr] at hp
      exact ⟨hpr, hp⟩
  refine h.setStreams (h.streams.setGuard hr rfl rfl)
    (h.apart.of_imp fun p c hp => (hplaces p c hp).2) ?_
  intro p c hp
  obtain ⟨hpr, hold⟩ := hplaces p c hp
  exact ⟨p, hold, fun r' request _ _ _ hsettled =>
    hsettled.of_ne hpr fun r' hne => update_of_ne hne ..⟩

/-- A pipeline hands its stream back when it is done. -/
theorem Sys.Inv.release
    (hrequest : s.requests r = some request) (hdone : request.cursor = true ∨ request.Done)
    (hr : s.streams.guards r = some guard) :
    Sys.Inv { s with streams := s.streams.release r guard } := by
  have hinv := h.streams.release hr
  unfold State.release at hinv ⊢
  split_ifs at hinv ⊢
  · obtain ⟨hself, hsame⟩ := connAt_setGuard s.streams
      { s.streams.setGuard r (some { guard with release := true }) with
        issued := (guard.stream.streamId, guard.stream.batonSeq) :: s.streams.issued } rfl rfl
    have hconn : ∀ p, State.connAt { s.streams.setGuard r (some { guard with release := true }) with
        issued := (guard.stream.streamId, guard.stream.batonSeq) :: s.streams.issued } p =
          s.streams.connAt p := by
      intro p
      by_cases hpr : p = .guard r
      · rw [hpr, hself]
        simp only [State.connAt, hr]
        rfl
      · exact hsame p hpr
    refine h.setStreams hinv (h.apart.of_imp fun p c hp => by rw [← hconn]; exact hp) ?_
    intro p c hp
    rw [hconn] at hp
    refine ⟨p, hp, fun r' request' hr' _ hpipeline hsettled => ?_⟩
    by_cases heq : r' = r
    · subst heq
      rw [hrequest] at hr'
      cases hr'
      rcases hdone with hcursor | hdone
      · simp [hcursor] at hpipeline
      · exact Or.inl hdone
    · exact hsettled.of_guards fun _ => update_of_ne heq ..
  · exact h

/-- A stream that comes back to the table comes from a pipeline that is done or from a cursor. -/
theorem Sys.Inv.dropGuard (hr : s.streams.guards r = some guard) :
    Sys.Inv { s with streams := s.streams.dropGuard r guard now } := by
  obtain ⟨htable, hnone, hsame⟩ := connAt_dropGuard h.streams hr now
  have hothers : ∀ p c, p ≠ .table guard.stream.streamId →
      (s.streams.dropGuard r guard now).connAt p = some c → p ≠ .guard r ∧
        s.streams.connAt p = some c := by
    intro p c hpt hp
    by_cases hpr : p = .guard r
    · simp [hpr, hnone] at hp
    · rw [hsame p hpt hpr] at hp
      exact ⟨hpr, hp⟩
  refine h.setStreams (h.streams.dropGuard hr) (h.apart.move (fun c hc => (htable c hc).2) hnone
    fun p c hpt hp => (hothers p c hpt hp).2) ?_
  intro p c hp
  by_cases hpt : p = .table guard.stream.streamId
  · rw [hpt] at hp
    obtain ⟨hrelease, hheld⟩ := htable c hp
    refine ⟨.guard r, hheld, fun r' request _ _ _ hsettled => ?_⟩
    rcases hsettled with hdone | ⟨hplace, guard', hguard', hkept⟩
    · exact Or.inl hdone
    · rw [← Place.guard.inj hplace, hr] at hguard'
      cases hguard'
      simp [hrelease] at hkept
  · obtain ⟨hpr, hold⟩ := hothers p c hpt hp
    refine ⟨p, hold, fun r' request _ _ _ hsettled => hsettled.of_ne hpr fun r' hne => ?_⟩
    rw [guards_dropGuard, update_of_ne hne]

theorem Sys.Inv.pump :
    Sys.Inv { s with streams := s.streams.pumpExpire now } := by
  have hstep : s.streams.step (.pump now) = some (s.streams.pumpExpire now) := rfl
  have hfewer := fewer_pumpExpire s.streams now
  refine h.setStreams (h.streams.step hstep) (h.apart.of_imp fun p c => hfewer.connAt) ?_
  intro p c hp
  refine ⟨p, hfewer.connAt hp, fun r' request _ _ _ hsettled => hsettled.of_guards fun _ => ?_⟩
  exact congrFun hfewer.guards r'

/-! ### Steps and runs -/

theorem Sys.Inv.step {a : Step ι ρ σ} (hcareful : s.Careful a)
    (hstep : s.step a = some s') : s'.Inv := by
  cases a <;> simp only [Sys.step] at hstep
  case acquire r baton cursor statements =>
    split at hstep
    · next hr hguard =>
      split at hstep
      · cases hstep
        exact h
      · next stream hlookUp =>
        cases hstep
        exact h.acquire hr hlookUp (hcareful stream hlookUp)
    · cases hstep
  case create r id batonSeq cursor statements =>
    split at hstep
    · next hr hguard hid =>
      cases hstep
      exact h.create hr hid
    · cases hstep
  case start r =>
    split at hstep
    · next conn turn cursor statement left begun hr =>
      split_ifs at hstep
      cases hstep
      exact h.setRequest hr (fun hdone => nomatch hdone.1) rfl rfl rfl
    · cases hstep
  case finish r =>
    split at hstep
    · next conn turn cursor left begun hr =>
      cases hstep
      exact h.setRequest hr (fun hdone => nomatch hdone.2) rfl rfl rfl
    · cases hstep
  case closeDb r =>
    obtain ⟨streams, hstreams, rfl⟩ := Option.map_eq_some_iff.1 hstep
    simp only [State.step] at hstreams
    split at hstreams
    · next stream hr =>
      cases hstreams
      exact h.closeDb hr
    · cases hstreams
  case release r =>
    split at hstep
    swap
    · cases hstep
    rename_i conn turn cursor left running begun hrequest
    split_ifs at hstep with hdone
    obtain ⟨streams, hstreams, rfl⟩ := Option.map_eq_some_iff.1 hstep
    simp only [State.step] at hstreams
    split at hstreams
    · next stream hr =>
      cases hstreams
      refine h.release hrequest ?_ hr
      rw [Bool.or_eq_true, Bool.and_eq_true, List.isEmpty_iff, Bool.not_eq_true'] at hdone
      exact hdone
    · cases hstreams
  case drop r now =>
    obtain ⟨streams, hstreams, rfl⟩ := Option.map_eq_some_iff.1 hstep
    obtain ⟨guard, hr, rfl⟩ := Option.map_eq_some_iff.1 hstreams
    exact h.dropGuard hr
  case pump now =>
    cases hstep
    exact h.pump

omit h

/-- **The statements of requests on one stream do not interleave** in a run in which no cursor has
statements left whenever its stream is acquired again. -/
theorem Sys.in_order (now : ℕ) (steps : List (Step ι ρ σ)) (s : Sys ι ρ σ)
    (hcareful : Run.Along Sys.step Sys.Careful (Sys.new now) steps)
    (hrun : Run.exec Sys.step (Sys.new now) steps = some s) : s.InOrder := by
  have h : s.Inv := Run.exec_invariant (fun _ _ _ h hok hstep => Sys.Inv.step h hok hstep)
    inv_newSys hcareful hrun
  intro r₁ r₂ first second c h₁ h₂ hc₁ hc₂ hlt _
  exact h.order r₁ r₂ first second c h₁ h₂ hc₁ hc₂ hlt

end Steps

def Step.acquires : Step ι ρ σ → Bool
  | .acquire .. => true
  | _ => false

/-- A pipeline of two statements, a cursor that runs to its end, and another pipeline. -/
def oneByOne : List (Step ℕ (Fin 3) String) :=
  [ .create 0 5 7 false ["begin", "insert"], .start 0, .finish 0, .start 0, .finish 0, .release 0,
    .drop 0 0, .acquire 1 (5, 7) true ["select"], .release 1, .drop 1 0, .start 1, .finish 1,
    .acquire 2 (5, 8) false ["commit"], .start 2 ]

theorem Sys.in_order_oneByOne :
    ∃ s, Run.exec Sys.step (Sys.new 0) oneByOne = some s ∧
      (s.requests 2).map (·.begun) = some true ∧ s.InOrder := by
  obtain ⟨s, hs, hbegun⟩ : ∃ s, Run.exec Sys.step (Sys.new 0) oneByOne = some s ∧
      (s.requests 2).map (·.begun) = some true := by decide +kernel
  refine ⟨s, hs, hbegun, Sys.in_order 0 oneByOne s ?_ hs⟩
  have hdone : ∀ (s : Sys ℕ (Fin 3) String) a, (a.acquires = true →
      ∀ r, ∀ request, s.requests r = some request → request.left = [] ∧ request.running = false) →
      s.Careful a := by
    intro s a h
    cases a with
    | acquire => exact fun _ _ r request hr _ _ => h rfl r request hr
    | _ => trivial
  exact Run.along_mono hdone (by decide +kernel)

/-- A cursor of two statements has its baton used when the first one is done. -/
def overtaking : List (Step ℕ (Fin 3) String) :=
  [ .create 0 5 7 true ["insert", "commit"], .release 0, .drop 0 0, .start 0, .finish 0,
    .acquire 1 (5, 7) false ["rollback"], .start 1 ]

/-- **A cursor gives its baton away before it is done**: the next request's statement runs between
two of its own. -/
theorem Sys.interleaved :
    ∃ s, Run.exec Sys.step (Sys.new 0) overtaking = some s ∧ ¬ s.InOrder := by
  obtain ⟨s, hs, hfirst, hsecond⟩ : ∃ s, Run.exec Sys.step (Sys.new 0) overtaking = some s ∧
      s.requests 0 = some ⟨some 0, 0, true, ["commit"], false, true⟩ ∧
      s.requests 1 = some ⟨some 0, 1, false, [], true, true⟩ := by decide +kernel
  refine ⟨s, hs, fun hin => ?_⟩
  have hdone := hin 0 1 _ _ 0 hfirst hsecond rfl rfl Nat.zero_lt_one rfl
  exact absurd hdone.1 (List.cons_ne_nil _ _)

end SqlAnywhere.Server.HttpStreams
