import Mathlib.Data.List.Sort
import SqlAnywhere.Lib.Run
import SqlAnywhere.Lib.Update

/-!
# The table of HTTP streams

A stream lives between HTTP requests in a table under its random id.  A request that shows the baton
of a stream acquires it and gets a guard; the guard's destructor puts the stream back or removes it.
A stream that is not acquired for ten seconds expires, and five minutes later its entry goes.

* `State`, `Action`, `State.step` — the table with its two queues, and the guards of the requests
* `State.issued`, `State.accepted` — the batons that were handed out and those that were accepted
* `opened` — the streams that could have come to a baton
* `State.Right` — what is to hold of batons, guards and queues
* `State.runs_right` — in every run

A baton is its stream id and its sequence number; one that was never handed out does not decode, for
its authentication code cannot be forged.
-/

namespace SqlAnywhere.Server.HttpStreams

open Function List

variable {ι ρ δ : Type*}

/-- A stream over a connection of type `δ`, which is gone after a `"close"` request. -/
structure Stream (ι δ : Type*) where
  db : Option δ
  streamId : ι
  batonSeq : ℕ

inductive Handle (ι δ : Type*)
  | available (stream : Stream ι δ)
  | acquired
  | expired

structure Guard (ι δ : Type*) where
  stream : Stream ι δ
  /-- the destructor is to put the stream back -/
  release : Bool

/-- `ServerStreamState`, with the guards of the requests, the batons there have been, and the ids and
first sequence numbers that were drawn for streams.  The `expire_queue` is kept in the order of its
instants. -/
structure State (ι ρ δ : Type*) where
  handles : ι → Option (Handle ι δ)
  expireQueue : List (ι × ℕ)
  cleanupQueue : List (ι × ℕ)
  expireRoundBase : ℕ
  guards : ρ → Option (Guard ι δ)
  issued : List (ι × ℕ)
  accepted : List (ι × ℕ)
  drawn : List (ι × ℕ)
  panicked : Bool

/-- `ServerStreamState::new` at the instant `now`. -/
def State.new (now : ℕ) : State ι ρ δ :=
  ⟨fun _ => none, [], [], now, fun _ => none, [], [], [], false⟩

/-- A second, in the unit of the instants. -/
def second : ℕ := 1000

def expiration : ℕ := 10 * second

def cleanup : ℕ := 300 * second

def roundupInstant (base instant : ℕ) : ℕ := base + ((instant - base) / second + 1) * second

inductive AcquireError
  | batonInvalid
  | batonReused
  | streamExpired

section Steps

variable [DecidableEq ι] [DecidableEq ρ]

def State.setHandle (s : State ι ρ δ) (id : ι) (handle : Option (Handle ι δ)) : State ι ρ δ :=
  { s with handles := Function.update s.handles id handle }

def State.setGuard (s : State ι ρ δ) (r : ρ) (guard : Option (Guard ι δ)) : State ι ρ δ :=
  { s with guards := Function.update s.guards r guard }

def State.unmarkExpire (s : State ι ρ δ) (id : ι) : State ι ρ δ :=
  { s with expireQueue := s.expireQueue.filter (·.1 ≠ id) }

/-- `mark_expire`: an entry of the same id would be replaced. -/
def State.markExpire (s : State ι ρ δ) (now : ℕ) (id : ι) : State ι ρ δ :=
  { s with
    expireQueue := (s.expireQueue.filter (·.1 ≠ id)).orderedInsert (fun p q => p.2 ≤ q.2)
      (id, roundupInstant s.expireRoundBase (now + expiration)) }

/-- The stream that a baton names, in `acquire`. -/
def State.lookUp (s : State ι ρ δ) (baton : ι × ℕ) : Except AcquireError (Stream ι δ) :=
  if baton ∈ s.issued then
    match s.handles baton.1 with
    | none => .error .batonInvalid
    | some .acquired => .error .batonReused
    | some .expired => .error .streamExpired
    | some (.available stream) =>
      if stream.batonSeq ≠ baton.2 then .error .batonReused else .ok stream
  else .error .batonInvalid

/-- `acquire` of a stream that is there. -/
def State.take (s : State ι ρ δ) (r : ρ) (baton : ι × ℕ) (stream : Stream ι δ) : State ι ρ δ :=
  let s := (s.setHandle baton.1 (some .acquired)).unmarkExpire stream.streamId
  { s.setGuard r (some ⟨{ stream with batonSeq := stream.batonSeq + 1 }, false⟩) with
    accepted := baton :: s.accepted }

/-- `acquire` without a baton. -/
def State.create (s : State ι ρ δ) (r : ρ) (db : δ) (id : ι) (batonSeq : ℕ) : State ι ρ δ :=
  { (s.setHandle id (some .acquired)).setGuard r (some ⟨⟨some db, id, batonSeq⟩, false⟩) with
    drawn := (id, batonSeq) :: s.drawn }

/-- `Guard::release`, up to the destructor. -/
def State.release (s : State ι ρ δ) (r : ρ) (guard : Guard ι δ) : State ι ρ δ :=
  if guard.stream.db.isSome then
    { s.setGuard r (some { guard with release := true }) with
      issued := (guard.stream.streamId, guard.stream.batonSeq) :: s.issued }
  else s

/-- The destructor of a guard. -/
def State.dropGuard (s : State ι ρ δ) (r : ρ) (guard : Guard ι δ) (now : ℕ) : State ι ρ δ :=
  let id := guard.stream.streamId
  let removed := (s.setGuard r none).setHandle id none
  match s.handles id with
  | some .acquired =>
    if guard.release then
      (removed.setHandle id (some (.available guard.stream))).markExpire now id
    else removed
  | _ => { removed with panicked := true }

/-- A stream whose time is up. -/
def State.expire (s : State ι ρ δ) (now : ℕ) (id : ι) : State ι ρ δ :=
  match s.handles id with
  | some (.available _) =>
    { s.setHandle id (some .expired) with
      cleanupQueue := s.cleanupQueue ++ [(id, roundupInstant s.expireRoundBase (now + cleanup))] }
  | _ => s

/-- The first loop of `pump_expire`. -/
def State.expireLoop (now : ℕ) : List (ι × ℕ) → State ι ρ δ → State ι ρ δ
  | [], s => { s with expireQueue := [] }
  | (id, expireAt) :: rest, s =>
    if expireAt ≤ now then State.expireLoop now rest (s.expire now id)
    else { s with expireQueue := (id, expireAt) :: rest }

/-- The second loop of `pump_expire`. -/
def State.cleanupLoop (now : ℕ) : List (ι × ℕ) → State ι ρ δ → State ι ρ δ
  | [], s => { s with cleanupQueue := [] }
  | (id, cleanupAt) :: rest, s =>
    if cleanupAt ≤ now then
      match s.handles id with
      | some .expired => State.cleanupLoop now rest (s.setHandle id none)
      | _ => { s.setHandle id none with cleanupQueue := rest, panicked := true }
    else { s with cleanupQueue := (id, cleanupAt) :: rest }

def State.pumpExpire (s : State ι ρ δ) (now : ℕ) : State ι ρ δ :=
  let s := State.expireLoop now s.expireQueue s
  State.cleanupLoop now s.cleanupQueue s

inductive Action (ι ρ δ : Type*)
  /-- a request with a baton, which acquires its stream or ends with an error -/
  | acquire (r : ρ) (baton : ι × ℕ)
  /-- a request without one, over a new connection and under what `gen_stream_id` and `random`
  have given -/
  | create (r : ρ) (db : δ) (id : ι) (batonSeq : ℕ)
  | closeDb (r : ρ)
  | release (r : ρ)
  /-- the destructor, after `release` or wherever the request ends -/
  | drop (r : ρ) (now : ℕ)
  | pump (now : ℕ)

/-- Take a step.  A guard that is released is only dropped from then on. -/
def State.step (s : State ι ρ δ) : Action ι ρ δ → Option (State ι ρ δ)
  | .acquire r baton =>
    match s.guards r with
    | some _ => none
    | none =>
      match s.lookUp baton with
      | .error _ => some s
      | .ok stream => some (s.take r baton stream)
  | .create r db id batonSeq =>
    match s.guards r, s.handles id with
    | none, none => some (s.create r db id batonSeq)
    | _, _ => none
  | .closeDb r =>
    match s.guards r with
    | some ⟨stream, false⟩ => some (s.setGuard r (some ⟨{ stream with db := none }, false⟩))
    | _ => none
  | .release r =>
    match s.guards r with
    | some ⟨stream, false⟩ => some (s.release r ⟨stream, false⟩)
    | _ => none
  | .drop r now => (s.guards r).map fun guard => s.dropGuard r guard now
  | .pump now => some (s.pumpExpire now)

/-- The streams that were created under the id of a baton with a sequence number up to its own: a
stream counts up from there, so these are the ones that can have come to it. -/
def opened (drawn : List (ι × ℕ)) (baton : ι × ℕ) : ℕ :=
  drawn.countP fun d => d.1 = baton.1 ∧ d.2 ≤ baton.2

/-- What is asked of the table. -/
structure State.Right (s : State ι ρ δ) : Prop where
  once : ∀ baton, s.accepted.count baton ≤ opened s.drawn baton
  single : ∀ r r' guard guard', s.guards r = some guard → s.guards r' = some guard' →
    guard.stream.streamId = guard'.stream.streamId → r = r'
  expiring : ∀ p ∈ s.expireQueue, ∃ stream, s.handles p.1 = some (.available stream)
  spared : s.panicked = false

/-! ### The invariant -/

/-- The batons that a stream can still come to have been accepted by others only. -/
def Unspent (accepted drawn : List (ι × ℕ)) (stream : Stream ι δ) : Prop :=
  ∀ n, stream.batonSeq ≤ n →
    accepted.count (stream.streamId, n) < opened drawn (stream.streamId, n)

structure Inv (s : State ι ρ δ) : Prop extends s.Right where
  held : ∀ r guard, s.guards r = some guard → s.handles guard.stream.streamId = some .acquired
  named : ∀ id stream, s.handles id = some (.available stream) → stream.streamId = id
  unspent : ∀ id stream, s.handles id = some (.available stream) →
    Unspent s.accepted s.drawn stream
  guarded : ∀ r guard, s.guards r = some guard → Unspent s.accepted s.drawn guard.stream
  expiringOnce : (s.expireQueue.map Prod.fst).Nodup
  expired : ∀ p ∈ s.cleanupQueue, s.handles p.1 = some .expired
  expiredOnce : (s.cleanupQueue.map Prod.fst).Nodup

variable {s s' : State ι ρ δ} {r : ρ} {id : ι} {stream : Stream ι δ} {guard : Guard ι δ} {now : ℕ}
  {handle : Option (Handle ι δ)} {rest : List (ι × ℕ)} {baton : ι × ℕ}

omit [DecidableEq ρ] in
theorem inv_new (now : ℕ) : Inv (State.new now : State ι ρ δ) where
  once := fun _ => Nat.le_refl _
  single := nofun
  expiring := nofun
  spared := rfl
  held := nofun
  named := nofun
  unspent := nofun
  guarded := nofun
  expiringOnce := nodup_nil
  expired := nofun
  expiredOnce := nodup_nil

omit [DecidableEq ρ] in
theorem Inv.ne_of_guard (h : Inv s) (hhandle : s.handles id ≠ some .acquired)
    (hguard : s.guards r = some guard) : guard.stream.streamId ≠ id := by
  rintro rfl
  exact hhandle (h.held r guard hguard)

/-! ### Requests -/

omit [DecidableEq ρ] in
theorem Unspent.mono {accepted accepted' drawn drawn' : List (ι × ℕ)}
    (h : Unspent accepted drawn stream)
    (haccepted : ∀ n, accepted'.count (stream.streamId, n) = accepted.count (stream.streamId, n))
    (hdrawn : ∀ baton, opened drawn baton ≤ opened drawn' baton) :
    Unspent accepted' drawn' stream := by
  intro n hn
  rw [haccepted]
  exact Nat.lt_of_lt_of_le (h n hn) (hdrawn _)

/-- A stream goes from the table to a guard, or back, or comes or goes: nothing else changes but its
entry in `expire_queue`, the batons that were accepted and what was drawn. -/
theorem Inv.move (h : Inv s) (r : ρ) (id : ι) {guard' : Option (Guard ι δ)}
    {queue accepted drawn : List (ι × ℕ)}
    (hothers : ∀ r' guard, r' ≠ r → s.guards r' = some guard → guard.stream.streamId ≠ id)
    (hexpired : s.handles id ≠ some .expired) (hguard : ∀ guard, guard' = some guard →
      guard.stream.streamId = id ∧ handle = some .acquired ∧ Unspent accepted drawn guard.stream)
    (hhandle : ∀ stream, handle = some (.available stream) →
      stream.streamId = id ∧ Unspent accepted drawn stream)
    (hqueue : ∀ p ∈ queue, p.1 ≠ id ∧ p ∈ s.expireQueue ∨
      p.1 = id ∧ ∃ stream, handle = some (.available stream)) (hnodup : (queue.map Prod.fst).Nodup)
    (honce : ∀ baton, accepted.count baton ≤ opened drawn baton)
    (haccepted : ∀ baton : ι × ℕ, baton.1 ≠ id → accepted.count baton = s.accepted.count baton)
    (hdrawn : ∀ baton, opened s.drawn baton ≤ opened drawn baton) :
    Inv { s with
      handles := update s.handles id handle
      guards := update s.guards r guard'
      expireQueue := queue
      accepted := accepted
      drawn := drawn } where
  __ := h
  once := honce
  single := by
    intro r₁ r₂ guard₁ guard₂ hr₁ hr₂ hsame
    rcases of_update_eq_some hr₁ with ⟨h₁, hr₁⟩ | ⟨h₁, hr₁⟩
    · rcases of_update_eq_some hr₂ with ⟨h₂, -⟩ | ⟨h₂, hr₂⟩
      · rw [h₁, h₂]
      · exact absurd (hsame.symm.trans (hguard _ hr₁).1) (hothers r₂ guard₂ h₂ hr₂)
    · rcases of_update_eq_some hr₂ with ⟨-, hr₂⟩ | ⟨-, hr₂⟩
      · exact absurd (hsame.trans (hguard _ hr₂).1) (hothers r₁ guard₁ h₁ hr₁)
      · exact h.single r₁ r₂ guard₁ guard₂ hr₁ hr₂ hsame
  expiring := by
    intro p hp
    show ∃ stream, update s.handles id handle p.1 = some (.available stream)
    rcases hqueue p hp with ⟨hne, hold⟩ | ⟨rfl, stream, havailable⟩
    · rw [update_of_ne hne]
      exact h.expiring p hold
    · rw [update_self]
      exact ⟨stream, havailable⟩
  held := by
    intro r' guard hr'
    show update s.handles id handle guard.stream.streamId = some .acquired
    rcases of_update_eq_some hr' with ⟨-, hr'⟩ | ⟨hr, hr'⟩
    · obtain ⟨rfl, hacquired, -⟩ := hguard guard hr'
      rw [update_self]
      exact hacquired
    · rw [update_of_ne (hothers r' guard hr hr')]
      exact h.held r' guard hr'
  named := by
    intro id' stream hstream
    rcases of_update_eq_some hstream with ⟨rfl, hnew⟩ | ⟨-, hstream⟩
    · exact (hhandle stream hnew).1
    · exact h.named id' stream hstream
  unspent := by
    intro id' stream hstream
    rcases of_update_eq_some hstream with ⟨-, hstream⟩ | ⟨hid, hstream⟩
    · exact (hhandle stream hstream).2
    · refine (h.unspent id' stream hstream).mono (fun n => haccepted _ ?_) hdrawn
      rw [h.named id' stream hstream]
      exact hid
  guarded := by
    intro r' guard hr'
    rcases of_update_eq_some hr' with ⟨-, hr'⟩ | ⟨hr, hr'⟩
    · exact (hguard guard hr').2.2
    · exact (h.guarded r' guard hr').mono (fun n => haccepted _ (hothers r' guard hr hr')) hdrawn
  expiringOnce := hnodup
  expired := by
    intro p hp
    have hold := h.expired p hp
    show update s.handles id handle p.1 = some .expired
    rw [update_of_ne (fun heq => hexpired (by rw [← heq]; exact hold))]
    exact hold

omit [DecidableEq ρ] in
theorem lookUp_ok (h : s.lookUp baton = .ok stream) :
    s.handles baton.1 = some (.available stream) ∧ stream.batonSeq = baton.2 := by
  unfold State.lookUp at h
  split_ifs at h with hissued
  split at h
  · cases h
  · cases h
  · cases h
  rename_i stream' hhandle
  split_ifs at h with hseq
  · cases h
    exact ⟨hhandle, not_not.1 hseq⟩

omit [DecidableEq ρ] in
theorem Inv.filter_nodup (h : Inv s) :
    ((s.expireQueue.filter (·.1 ≠ id)).map Prod.fst).Nodup :=
  h.expiringOnce.sublist (filter_sublist.map Prod.fst)

theorem Inv.take (h : Inv s) (hlookUp : s.lookUp baton = .ok stream) :
    Inv (s.take r baton stream) := by
  obtain ⟨hhandle, hseq⟩ := lookUp_ok hlookUp
  have hid : stream.streamId = baton.1 := h.named _ _ hhandle
  have hunspent : ∀ n, baton.2 ≤ n → s.accepted.count (baton.1, n) < opened s.drawn (baton.1, n) := by
    intro n hn
    rw [← hid]
    exact h.unspent _ _ hhandle n (hseq ▸ hn)
  refine h.move r baton.1 ?_ (by rw [hhandle]; nofun) ?_ nofun ?_
    h.filter_nodup ?_ ?_ (fun _ => Nat.le_refl _)
  · intro r' guard _ hguard
    exact h.ne_of_guard (by rw [hhandle]; nofun) hguard
  · intro guard hguard
    cases hguard
    refine ⟨hid, rfl, fun n hn => ?_⟩
    -- the baton itself is behind the stream now
    have hn : baton.2 < n := hseq ▸ hn
    change count (stream.streamId, n) (baton :: s.accepted) < _
    rw [hid, count_cons_of_ne (fun heq => by rw [heq] at hn; exact Nat.lt_irrefl _ hn)]
    exact hunspent n (Nat.le_of_lt hn)
  · intro p hp
    have hp : p ∈ s.expireQueue.filter (·.1 ≠ stream.streamId) := hp
    rw [mem_filter, decide_eq_true_eq, hid] at hp
    exact Or.inl ⟨hp.2, hp.1⟩
  · intro baton'
    by_cases heq : baton' = baton
    · rw [heq, count_cons_self]
      exact hunspent baton.2 (Nat.le_refl _)
    · rw [count_cons_of_ne (Ne.symm heq)]
      exact h.once baton'
  · intro baton' hne
    exact count_cons_of_ne (fun heq => hne (by rw [heq]))

theorem Inv.create (h : Inv s) {db : δ} {batonSeq : ℕ} (hid : s.handles id = none) :
    Inv (s.create r db id batonSeq) := by
  have hdrawn : ∀ baton, opened s.drawn baton ≤ opened ((id, batonSeq) :: s.drawn) baton :=
    fun _ => (sublist_cons_self _ _).countP_le
  refine h.move r id ?_ (by rw [hid]; nofun) ?_ nofun ?_ h.expiringOnce
    (fun baton => Nat.le_trans (h.once baton) (hdrawn baton)) (fun _ _ => rfl) hdrawn
  · intro r' guard _ hguard
    exact h.ne_of_guard (by rw [hid]; nofun) hguard
  · intro guard hguard
    cases hguard
    refine ⟨rfl, rfl, fun n hn => ?_⟩
    rw [opened, countP_cons_of_pos (by simpa using hn)]
    exact Nat.lt_succ_of_le (h.once _)
  · intro p hp
    obtain ⟨stream, hstream⟩ := h.expiring p hp
    refine Or.inl ⟨?_, hp⟩
    rintro rfl
    simp [hid] at hstream

theorem Inv.setGuard (h : Inv s) {guard' : Guard ι δ} {issued : List (ι × ℕ)}
    (hr : s.guards r = some guard) (hid : guard'.stream.streamId = guard.stream.streamId)
    (hseq : guard'.stream.batonSeq = guard.stream.batonSeq) :
    Inv { s.setGuard r (some guard') with issued := issued } where
  __ := h
  single := by
    have hsame : ∀ r' guard₁, update s.guards r (some guard') r' = some guard₁ →
        ∃ guard₀, s.guards r' = some guard₀ ∧ guard₀.stream.streamId = guard₁.stream.streamId := by
      intro r' guard₁ hr'
      rcases of_update_eq_some hr' with ⟨rfl, ⟨⟩⟩ | ⟨-, hr'⟩
      · exact ⟨guard, hr, hid.symm⟩
      · exact ⟨guard₁, hr', rfl⟩
    intro r₁ r₂ guard₁ guard₂ hr₁ hr₂ heq
    obtain ⟨old₁, h₁, hid₁⟩ := hsame r₁ guard₁ hr₁
    obtain ⟨old₂, h₂, hid₂⟩ := hsame r₂ guard₂ hr₂
    exact h.single r₁ r₂ old₁ old₂ h₁ h₂ (by rw [hid₁, hid₂, heq])
  held := by
    intro r' guard₁ hr'
    rcases of_update_eq_some hr' with ⟨rfl, ⟨⟩⟩ | ⟨-, hr'⟩
    · rw [hid]
      exact h.held r' guard hr
    · exact h.held r' guard₁ hr'
  guarded := by
    intro r' guard₁ hr'
    rcases of_update_eq_some hr' with ⟨rfl, ⟨⟩⟩ | ⟨-, hr'⟩
    · intro n hn
      rw [hid]
      exact h.guarded r' guard hr n (hseq ▸ hn)
    · exact h.guarded r' guard₁ hr'

theorem Inv.release (h : Inv s) (hr : s.guards r = some guard) : Inv (s.release r guard) := by
  unfold State.release
  split_ifs
  · exact h.setGuard hr rfl rfl
  · exact h

omit [DecidableEq ρ] in
theorem Inv.others (h : Inv s) (hr : s.guards r = some guard) (r' : ρ) (guard' : Guard ι δ)
    (hne : r' ≠ r) (hr' : s.guards r' = some guard') :
    guard'.stream.streamId ≠ guard.stream.streamId :=
  fun hsame => hne (h.single r' r guard' guard hr' hr hsame)

/-- The destructor finds the entry of its stream acquired. -/
theorem Inv.dropGuard (h : Inv s) (hr : s.guards r = some guard) :
    Inv (s.dropGuard r guard now) := by
  have hhandle := h.held r guard hr
  have hout : ∀ p ∈ s.expireQueue, p.1 ≠ guard.stream.streamId := by
    rintro p hp heq
    obtain ⟨stream, hstream⟩ := h.expiring p hp
    simp [heq, hhandle] at hstream
  simp only [State.dropGuard, hhandle]
  cases hrelease : guard.release with
  | false =>
    exact h.move r guard.stream.streamId (h.others hr) (by rw [hhandle]; nofun) nofun
      nofun (fun p hp => Or.inl ⟨hout p hp, hp⟩) h.expiringOnce h.once (fun _ _ => rfl)
      (fun _ => Nat.le_refl _)
  | true =>
    simp only [if_true, State.markExpire, State.setHandle, State.setGuard, update_idem]
    refine h.move r _ (h.others hr) (by rw [hhandle]; nofun) nofun ?_ ?_ ?_ h.once (fun _ _ => rfl)
      (fun _ => Nat.le_refl _)
    · rintro _ ⟨⟩
      exact ⟨rfl, h.guarded r guard hr⟩
    · intro p hp
      rw [mem_orderedInsert] at hp
      rcases hp with rfl | hp
      · exact Or.inr ⟨rfl, guard.stream, rfl⟩
      · have hp := (mem_filter.1 hp).1
        exact Or.inl ⟨hout p hp, hp⟩
    · have hperm := (perm_orderedInsert (fun p q : ι × ℕ => p.2 ≤ q.2)
        (guard.stream.streamId, roundupInstant s.expireRoundBase (now + expiration))
        (s.expireQueue.filter (·.1 ≠ guard.stream.streamId))).map Prod.fst
      rw [hperm.nodup_iff, map_cons, nodup_cons]
      refine ⟨?_, h.filter_nodup⟩
      rintro hmem
      obtain ⟨p, hp, heq⟩ := mem_map.1 hmem
      exact hout p (mem_filter.1 hp).1 heq

/-! ### Expiry -/

section

omit [DecidableEq ρ]

theorem Inv.retire (h : Inv s) (hfree : s.handles id ≠ some .acquired)
    (hnot : ∀ stream, handle ≠ some (.available stream))
    {expireQueue cleanupQueue : List (ι × ℕ)}
    (hexpire : ∀ p ∈ expireQueue, p ∈ s.expireQueue ∧ p.1 ≠ id)
    (hexpireOnce : (expireQueue.map Prod.fst).Nodup)
    (hcleanup : ∀ p ∈ cleanupQueue, p ∈ s.cleanupQueue ∧ p.1 ≠ id ∨
      p.1 = id ∧ handle = some .expired) (hcleanupOnce : (cleanupQueue.map Prod.fst).Nodup) :
    Inv { s with
      handles := update s.handles id handle
      expireQueue := expireQueue
      cleanupQueue := cleanupQueue } := by
  have hold : ∀ id' stream, update s.handles id handle id' = some (.available stream) →
      s.handles id' = some (.available stream) := by
    intro id' stream hstream
    rcases of_update_eq_some hstream with ⟨-, hstream⟩ | ⟨-, hstream⟩
    · exact absurd hstream (hnot stream)
    · exact hstream
  exact
    { h with
      expiring := by
        intro p hp
        obtain ⟨hp, hne⟩ := hexpire p hp
        show ∃ stream, update s.handles id handle p.1 = _
        rw [update_of_ne hne]
        exact h.expiring p hp
      held := by
        intro r guard hguard
        show update s.handles id handle guard.stream.streamId = _
        rw [update_of_ne (h.ne_of_guard hfree hguard)]
        exact h.held r guard hguard
      named := fun id' stream hstream => h.named id' stream (hold id' stream hstream)
      unspent := fun id' stream hstream => h.unspent id' stream (hold id' stream hstream)
      expiringOnce := hexpireOnce
      expired := by
        intro p hp
        show update s.handles id handle p.1 = _
        rcases hcleanup p hp with ⟨hp, hne⟩ | ⟨heq, hexpired⟩
        · rw [update_of_ne hne]
          exact h.expired p hp
        · rw [heq, update_self]
          exact hexpired
      expiredOnce := hcleanupOnce }

/-- The queues are walked while the table changes: the invariant for what is left of them. -/
theorem Inv.expire {expireAt : ℕ}
    (h : Inv { s with expireQueue := (id, expireAt) :: rest }) :
    Inv { s.expire now id with expireQueue := rest } := by
  obtain ⟨stream, hstream⟩ := h.expiring (id, expireAt) (mem_cons_self ..)
  have hstream : s.handles id = some (.available stream) := hstream
  obtain ⟨honce, hrest⟩ := nodup_cons.1 h.expiringOnce
  have hnew : ∀ p ∈ s.cleanupQueue, p.1 ≠ id := by
    rintro p hp rfl
    have hexpired : s.handles p.1 = some .expired := h.expired p hp
    simp [hstream] at hexpired
  simp only [State.expire, hstream]
  refine h.retire (by rw [hstream]; nofun) (by nofun) ?_ hrest ?_ ?_
  · intro p hp
    exact ⟨mem_cons_of_mem _ hp, fun heq => honce (mem_map.2 ⟨p, hp, heq⟩)⟩
  · intro p hp
    rcases mem_append.1 hp with hp | hp
    · exact Or.inl ⟨hp, hnew p hp⟩
    · rw [mem_singleton.1 hp]
      exact Or.inr ⟨rfl, rfl⟩
  · rw [map_append, nodup_append]
    refine ⟨h.expiredOnce, nodup_singleton _, ?_⟩
    intro x hx y hy
    obtain ⟨p, hp, rfl⟩ := mem_map.1 hx
    rw [mem_singleton.1 hy]
    exact hnew p hp

theorem Inv.expireLoop (queue : List (ι × ℕ)) (s : State ι ρ δ)
    (h : Inv { s with expireQueue := queue }) : Inv (State.expireLoop now queue s) := by
  induction queue generalizing s with
  | nil => exact h
  | cons p rest ih =>
    obtain ⟨id, expireAt⟩ := p
    unfold State.expireLoop
    split_ifs
    · exact ih _ h.expire
    · exact h

theorem Inv.remove {cleanupAt : ℕ}
    (h : Inv { s with cleanupQueue := (id, cleanupAt) :: rest }) :
    s.handles id = some .expired ∧ Inv { s.setHandle id none with cleanupQueue := rest } := by
  have hexpired : s.handles id = some .expired := h.expired (id, cleanupAt) (mem_cons_self ..)
  obtain ⟨honce, hrest⟩ := nodup_cons.1 h.expiredOnce
  refine ⟨hexpired, h.retire (by rw [hexpired]; nofun) (by nofun) ?_ h.expiringOnce ?_ hrest⟩
  · rintro p hp
    refine ⟨hp, ?_⟩
    rintro rfl
    obtain ⟨stream, hstream⟩ := h.expiring p hp
    simp [hexpired] at hstream
  · intro p hp
    exact Or.inl ⟨mem_cons_of_mem _ hp, fun heq => honce (mem_map.2 ⟨p, hp, heq⟩)⟩

theorem Inv.cleanupLoop (queue : List (ι × ℕ)) (s : State ι ρ δ)
    (h : Inv { s with cleanupQueue := queue }) : Inv (State.cleanupLoop now queue s) := by
  induction queue generalizing s with
  | nil => exact h
  | cons p rest ih =>
    obtain ⟨id, cleanupAt⟩ := p
    unfold State.cleanupLoop
    split_ifs
    · obtain ⟨hexpired, hremoved⟩ := h.remove
      rw [hexpired]
      exact ih _ hremoved
    · exact h

end

/-! ### Steps and runs -/

/-- **Every step** keeps the invariant. -/
theorem Inv.step (h : Inv s) {a : Action ι ρ δ} (hstep : s.step a = some s') : Inv s' := by
  cases a <;> simp only [State.step] at hstep
  case acquire r baton =>
    split at hstep
    · cases hstep
    split at hstep
    · cases hstep
      exact h
    · next hlookUp =>
      cases hstep
      exact h.take hlookUp
  case create r db id batonSeq =>
    split at hstep
    · next hguard hid =>
      cases hstep
      exact h.create hid
    · cases hstep
  case closeDb r =>
    split at hstep
    · next stream hguard =>
      cases hstep
      exact h.setGuard hguard rfl rfl
    · cases hstep
  case release r =>
    split at hstep
    · next stream hguard =>
      cases hstep
      exact h.release hguard
    · cases hstep
  case drop r now =>
    obtain ⟨guard, hguard, rfl⟩ := Option.map_eq_some_iff.1 hstep
    exact h.dropGuard hguard
  case pump now =>
    cases hstep
    exact Inv.cleanupLoop _ _ (Inv.expireLoop _ _ h)

/-- **Batons and guards**: in every run a baton is accepted at most once by each stream that can have
come to it, and so at most once in all unless its id was drawn again for another such stream; a
stream has at most one guard, only streams that are available are to expire, and no destructor and
no clean-up finds an entry other than it expects. -/
theorem State.runs_right (now : ℕ) (actions : List (Action ι ρ δ)) (s : State ι ρ δ)
    (hrun : Run.exec State.step (State.new now) actions = some s) : s.Right :=
  (Run.exec_keeps (fun _ _ _ h hstep => Inv.step h hstep) (inv_new now) hrun).toRight

end Steps

/-- A stream is created, released, acquired with its baton, released and closed, and its id is drawn
again, with a higher sequence number: no baton is accepted twice. -/
def reopened : List (Action ℕ ℕ Unit) :=
  [ .create 0 () 5 7, .release 0, .drop 0 0, .acquire 1 (5, 7), .release 1, .drop 1 3000,
    .acquire 2 (5, 7), .acquire 2 (5, 8), .closeDb 2, .release 2, .drop 2 5000,
    .create 3 () 5 20, .release 3, .drop 3 6000, .pump 60000, .acquire 4 (5, 20), .pump 500000 ]

theorem State.runs_right_reopened :
    ∃ s, Run.exec State.step (State.new 0) reopened = some s ∧
      s.accepted = [(5, 8), (5, 7)] ∧ s.drawn = [(5, 20), (5, 7)] ∧ s.Right := by
  obtain ⟨s, hs, haccepted, hdrawn⟩ : ∃ s, Run.exec State.step (State.new 0) reopened = some s ∧
      s.accepted = [(5, 8), (5, 7)] ∧ s.drawn = [(5, 20), (5, 7)] := by decide +kernel
  exact ⟨s, hs, haccepted, hdrawn, State.runs_right 0 _ s hs⟩

/-- A stream draws the id and the sequence number of one that is gone. -/
def redrawn : List (Action ℕ ℕ Unit) :=
  [ .create 0 () 5 7, .release 0, .drop 0 0, .acquire 1 (5, 7), .drop 1 0,
    .create 2 () 5 7, .release 2, .drop 2 0, .acquire 3 (5, 7) ]

/-- **A baton of two streams** is accepted twice. -/
theorem State.accepted_twice :
    (Run.exec State.step (State.new 0) redrawn).map (·.accepted.count (5, 7)) = some 2 := by
  decide +kernel

end SqlAnywhere.Server.HttpStreams
