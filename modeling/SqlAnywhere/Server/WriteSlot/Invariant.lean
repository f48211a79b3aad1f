import Mathlib.Data.List.TakeWhile
import SqlAnywhere.Server.WriteSlot

/-!
# What holds of the write slot in every state

* `Inv` — the slot is held just by the connection that has acquired it, and every call of `acquire`
  that waits can be reached
* `Inv.frame`, `Inv.setConn` — one connection changes in a way that the others do not see
* `Inv.regrip`, `inv_scheduleNext`, `inv_release` — the slot passes from one connection to the next
-/

namespace SqlAnywhere.Server

open Function List

/-- The state of the slot that a connection relies on. -/
def Conn.grip (conn : Conn) : Option SlotState :=
  match conn.call with
  | .acquired _ => some .acquiring
  | .checkpointing _ => some (.acquired .checkpoint)
  | .releasing => some (.acquired .writeTxn)
  | .idle => if conn.writing then some (.acquired .writeTxn) else none
  | _ => none

/-- The slot is in use. -/
def SlotState.busy : SlotState → Bool
  | .acquiring | .acquired _ => true
  | .notified | .failure => false

/-- The queue is being drained, and `sync_token` is incremented. -/
def Checkpoint.drains : Checkpoint → Bool
  | .synced | .draining _ | .unparking _ _ => true
  | .marked | .running => false

/-- How many waiters a checkpoint is still to drain. -/
def Checkpoint.left : Checkpoint → Option ℕ
  | .draining n | .unparking _ n => some n
  | _ => none

/-- The call `a` of `acquire` is about to look at the slot, or will be as soon as it parks. -/
def Manager.Awake (m : Manager) (c : ConnId) (a : Acquire) : Prop :=
  (m.conns c).call = .looping a ∨ m.unparked a.call = true

/-- The call of `acquire` in which a connection has left the loop, to sleep or to abort the owner of
the slot. -/
def Call.blocked : Call → Option Acquire
  | .parked a _ | .aborting a _ | .upgrading a _ | .rollingBack a _ => some a
  | _ => none

/-- Somebody wakes the call `a` of `acquire` up: it is queued, or has its wake-up, or a checkpoint has
taken it off the queue and is about to wake it up. -/
def Manager.Reached (m : Manager) (c : ConnId) (a : Acquire) : Prop :=
  ⟨c, a.call⟩ ∈ m.writeQueue ∨ m.unparked a.call = true ∨
    ∃ d n, (m.conns d).call = .checkpointing (.unparking ⟨c, a.call⟩ n)

/-- What holds in every reachable state. -/
structure Inv (m : Manager) : Prop where
  /-- The slot is in use just by the connection that relies on it. -/
  held : ∀ c st, st.busy = true →
    ((m.conns c).grip = some st ↔ ∃ t, m.current = some ⟨c, t, st⟩)
  writing : ∀ c, (m.conns c).writing = true →
    (m.conns c).call = .idle ∧ (m.conns c).holdsSlot = true
  notified : ∀ c t, m.current = some ⟨c, t, .notified⟩ →
    ∃ a, (m.conns c).call.waiting = some a ∧ a.enqueued = true ∧ ⟨c, a.call⟩ ∉ m.writeQueue ∧
      m.Awake c a
  failed : ∀ c t a, m.current = some ⟨c, t, .failure⟩ → (m.conns c).call.waiting = some a →
    a.enqueued = false
  waits : ∀ c a, (m.conns c).call.waiting = some a →
    m.live a.call = true ∧ a.call < m.nextCall ∧ a.syncToken ≤ m.syncToken
  placed : ∀ c a, (m.conns c).call.waiting = some a → a.enqueued = true →
    a.syncToken < m.syncToken ∨ ⟨c, a.call⟩ ∈ m.writeQueue ∨
      ∃ t, m.current = some ⟨c, t, .notified⟩
  unique : ∀ c d a b, (m.conns c).call.waiting = some a → (m.conns d).call.waiting = some b →
    a.call = b.call → c = d
  queued : ∀ w ∈ m.writeQueue, w.call < m.nextCall ∧ (m.live w.call = true →
    ∃ a, (m.conns w.id).call.waiting = some a ∧ a.enqueued = true ∧ a.call = w.call)
  nodup : m.writeQueue.Nodup
  synced : ∀ c p, (m.conns c).call = .checkpointing p → p.drains = true →
    ∀ d a, (m.conns d).call.waiting = some a → a.enqueued = true → a.syncToken < m.syncToken
  left : ∀ c p n, (m.conns c).call = .checkpointing p → p.left = some n → m.writeQueue.length = n
  reached : ∀ c a, (m.conns c).call.blocked = some a → a.enqueued = true ∧ m.Reached c a
  unborn : ∀ c, m.nextConnId ≤ c → m.conns c = ⟨.idle, .unborn, false, false, false, 0⟩

section

variable {m m' : Manager} {c d : ConnId} {conn : Conn} {a b : Acquire} {st : SlotState} {t : ℕ}
  {slot : Option Slot}

theorem inv_new : Inv .new where
  held c st hst := by simp [Manager.new, Conn.grip]
  writing c h := by simp [Manager.new] at h
  notified c t h := by simp [Manager.new] at h
  failed c t a h := by simp [Manager.new] at h
  waits c a h := by simp [Manager.new, Call.waiting] at h
  placed c a h := by simp [Manager.new, Call.waiting] at h
  unique c d a b h := by simp [Manager.new, Call.waiting] at h
  queued w h := by simp [Manager.new] at h
  nodup := nodup_nil
  synced c p h := by simp [Manager.new] at h
  left c p n h := by simp [Manager.new] at h
  reached c a h := by simp [Manager.new, Call.blocked] at h
  unborn c _ := rfl

/-! ### Steps that leave the slot, the queue and the tokens alone -/

/-- Two connections that look the same to the others. -/
structure Conn.Like (conn conn' : Conn) : Prop where
  grip : conn'.grip = conn.grip
  waiting : conn'.call.waiting = conn.call.waiting
  writing : conn'.writing = true → conn'.call = .idle ∧ conn'.holdsSlot = true
  checkpoint : ∀ p, conn'.call = .checkpointing p ↔ conn.call = .checkpointing p

theorem Inv.frame (h : Inv m) (hcurrent : m'.current = m.current)
    (hqueue : m'.writeQueue = m.writeQueue) (hlive : m'.live = m.live)
    (htoken : m'.syncToken = m.syncToken) (hcall : m'.nextCall = m.nextCall)
    (hlike : ∀ d, (m.conns d).Like (m'.conns d))
    (hawake : ∀ d t a, m.current = some ⟨d, t, .notified⟩ → (m.conns d).call.waiting = some a →
      m.Awake d a → m'.Awake d a)
    (hreached : ∀ d a, (m'.conns d).call.blocked = some a → a.enqueued = true ∧ m'.Reached d a)
    (hunborn : ∀ c, m'.nextConnId ≤ c → m'.conns c = ⟨.idle, .unborn, false, false, false, 0⟩) :
    Inv m' where
  held c st hst := by
    rw [(hlike c).grip, hcurrent]
    exact h.held c st hst
  writing c := (hlike c).writing
  notified c t ht := by
    rw [hcurrent] at ht
    obtain ⟨a, ha, he, hq, hp⟩ := h.notified c t ht
    exact ⟨a, (hlike c).waiting.trans ha, he, hqueue ▸ hq, hawake c t a ht ha hp⟩
  failed c t a ht ha := by
    rw [hcurrent] at ht
    rw [(hlike c).waiting] at ha
    exact h.failed c t a ht ha
  waits c a ha := by
    rw [(hlike c).waiting] at ha
    rw [hlive, htoken, hcall]
    exact h.waits c a ha
  placed c a ha he := by
    rw [(hlike c).waiting] at ha
    rw [hqueue, htoken, hcurrent]
    exact h.placed c a ha he
  unique c d a b ha hb hab := by
    rw [(hlike c).waiting] at ha
    rw [(hlike d).waiting] at hb
    exact h.unique c d a b ha hb hab
  queued w hw := by
    rw [hqueue] at hw
    rw [hlive, hcall, (hlike w.id).waiting]
    exact h.queued w hw
  nodup := hqueue ▸ h.nodup
  synced c p hp hd d a ha he := by
    rw [(hlike d).waiting] at ha
    rw [htoken]
    exact h.synced c p (((hlike c).checkpoint p).1 hp) hd d a ha he
  left c p n hp hn := by
    rw [hqueue]
    exact h.left c p n (((hlike c).checkpoint p).1 hp) hn
  reached := hreached
  unborn := hunborn

/-! ### One connection changes -/

@[simp] theorem setConn_conns_self : (m.setConn c conn).conns c = conn :=
  update_self ..

theorem setConn_conns_of_ne (h : d ≠ c) : (m.setConn c conn).conns d = m.conns d :=
  update_of_ne h ..

@[simp] theorem setConn_current : (m.setConn c conn).current = m.current := rfl

@[simp] theorem setConn_writeQueue : (m.setConn c conn).writeQueue = m.writeQueue := rfl

@[simp] theorem setConn_live : (m.setConn c conn).live = m.live := rfl

@[simp] theorem setConn_unparked : (m.setConn c conn).unparked = m.unparked := rfl

theorem setCall_conns_self {call : Call} :
    (m.setCall c call).conns c = { m.conns c with call := call } :=
  setConn_conns_self

theorem Conn.Like.refl (h : conn.writing = true → conn.call = .idle ∧ conn.holdsSlot = true) :
    conn.Like conn :=
  ⟨rfl, rfl, h, fun _ => Iff.rfl⟩

theorem forall_setConn {P : ConnId → Conn → Prop} (hc : P c conn)
    (h : ∀ d, d ≠ c → P d (m.conns d)) : ∀ d, P d ((m.setConn c conn).conns d) :=
  (forall_update_iff m.conns P).2 ⟨hc, h⟩

/-- What is so of a connection after one has changed was so before, unless it is that one. -/
theorem of_setConn {α : Type} (f : Conn → α) {x : α} (h : f ((m.setConn c conn).conns d) = x) :
    d = c ∧ f conn = x ∨ d ≠ c ∧ f (m.conns d) = x := by
  by_cases hd : d = c
  · subst hd
    rw [setConn_conns_self] at h
    exact .inl ⟨rfl, h⟩
  · rw [setConn_conns_of_ne hd] at h
    exact .inr ⟨hd, h⟩

theorem waiting_setConn (hconns : m'.conns = m.conns)
    (h : conn.call.waiting = (m.conns c).call.waiting) :
    ((m'.setConn c conn).conns d).call.waiting = (m.conns d).call.waiting :=
  forall_setConn (P := fun d conn => conn.call.waiting = (m.conns d).call.waiting) h
    (fun d _ => by rw [hconns]) d

variable (h : Inv m)
include h

theorem writing_setConn (hconns : m'.conns = m.conns)
    (hconn : conn.writing = true → conn.call = .idle ∧ conn.holdsSlot = true) (d : ConnId) :
    ((m'.setConn c conn).conns d).writing = true →
      ((m'.setConn c conn).conns d).call = .idle ∧
        ((m'.setConn c conn).conns d).holdsSlot = true := by
  refine forall_setConn (P := fun _ conn => conn.writing = true →
    conn.call = .idle ∧ conn.holdsSlot = true) hconn (fun d _ => ?_) d
  rw [hconns]
  exact h.writing d

/-- A connection goes on relying on the slot as it did. -/
theorem held_setConn (hconns : m'.conns = m.conns) (hcurrent : m'.current = m.current)
    (hgrip : conn.grip = (m.conns c).grip) (d : ConnId) (st : SlotState) (hst : st.busy = true) :
    ((m'.setConn c conn).conns d).grip = some st ↔
      ∃ t, (m'.setConn c conn).current = some ⟨d, t, st⟩ := by
  have hgrip' : ((m'.setConn c conn).conns d).grip = (m.conns d).grip := by
    refine forall_setConn (P := fun d conn => conn.grip = (m.conns d).grip) hgrip (fun d _ => ?_) d
    rw [hconns]
  rw [hgrip', setConn_current, hcurrent]
  exact h.held d st hst

theorem born_of_call (hcall : (m.conns c).call ≠ .idle) : c < m.nextConnId := by
  by_contra hc
  rw [h.unborn c (Nat.le_of_not_lt hc)] at hcall
  exact hcall rfl

theorem born_of_ready (hready : (m.conns c).ready = true) : c < m.nextConnId := by
  by_contra hc
  rw [h.unborn c (Nat.le_of_not_lt hc)] at hready
  cases hready

theorem born_of_waiting (ha : (m.conns c).call.waiting = some a) : c < m.nextConnId :=
  born_of_call h (fun hidle => by rw [hidle] at ha; cases ha)

theorem born_of_grip (hgrip : (m.conns c).grip = some st) : c < m.nextConnId := by
  by_contra hc
  rw [h.unborn c (Nat.le_of_not_lt hc)] at hgrip
  cases hgrip

theorem not_writing (hcall : (m.conns c).call ≠ .idle) : (m.conns c).writing = false := by
  by_contra hw
  exact hcall (h.writing c (by simpa using hw)).1

theorem unborn_setConn (hborn : c < m.nextConnId) :
    ∀ d, m.nextConnId ≤ d →
      (m.setConn c conn).conns d = ⟨.idle, .unborn, false, false, false, 0⟩ := by
  intro d hd
  rw [setConn_conns_of_ne (Nat.ne_of_gt (Nat.lt_of_lt_of_le hborn hd))]
  exact h.unborn d hd

omit h

/-- A wake-up is not lost by a connection that stays in its checkpoint, or is in none. -/
theorem Manager.Reached.of_setConn (h : m.Reached d a)
    (hcheckpoint : ∀ w n, (m.conns c).call = .checkpointing (.unparking w n) →
      conn.call = .checkpointing (.unparking w n)) : (m.setConn c conn).Reached d a := by
  rcases h with hq | hu | ⟨e, n, he⟩
  · exact .inl hq
  · exact .inr (.inl hu)
  refine .inr (.inr ⟨e, n, ?_⟩)
  by_cases hec : e = c
  · subst hec
    rw [setConn_conns_self]
    exact hcheckpoint _ _ he
  · rw [setConn_conns_of_ne hec]
    exact he

/-- A connection that does not wait changes, and the others keep their wake-ups. -/
theorem reached_setConn (h : Inv m) (hconns : m'.conns = m.conns)
    (hreached : ∀ d a, d ≠ c → (m.conns d).call.blocked = some a → m.Reached d a →
      m'.Reached d a) (hblocked : conn.call.blocked = none)
    (hcheckpoint : ∀ w n, (m.conns c).call ≠ .checkpointing (.unparking w n)) (d : ConnId)
    (a : Acquire) (ha : ((m'.setConn c conn).conns d).call.blocked = some a) :
    a.enqueued = true ∧ (m'.setConn c conn).Reached d a := by
  obtain ⟨-, ha⟩ | ⟨hd, ha⟩ := of_setConn (·.call.blocked) ha
  · simp [hblocked] at ha
  rw [hconns] at ha
  obtain ⟨he, hr⟩ := h.reached d a ha
  refine ⟨he, (hreached d a hd ha hr).of_setConn (fun w n hp => ?_)⟩
  rw [hconns] at hp
  exact absurd hp (hcheckpoint w n)

theorem waiting_of_blocked {call : Call} (h : call.blocked = some a) : call.waiting = some a := by
  cases call <;> first | exact h | cases h

theorem Inv.setConn (h : Inv m) (hborn : c < m.nextConnId) (hlike : (m.conns c).Like conn)
    (hawake : ∀ t a, m.current = some ⟨c, t, .notified⟩ → conn.call.waiting = some a →
      m.Awake c a → conn.call = .looping a ∨ m.unparked a.call = true)
    (hreached : ∀ a, conn.call.blocked = some a → a.enqueued = true ∧ m.Reached c a) :
    Inv (m.setConn c conn) := by
  refine h.frame rfl rfl rfl rfl rfl ?_ ?_ ?_ (unborn_setConn h hborn)
  · exact forall_setConn (P := fun d => (m.conns d).Like) hlike
      (fun d _ => .refl (h.writing d))
  · intro d t a ht ha hd
    by_cases hdc : d = c
    · subst hdc
      rw [← hlike.waiting] at ha
      simpa [Manager.Awake] using hawake t a ht ha hd
    · simpa [Manager.Awake, setConn_conns_of_ne hdc] using hd
  · intro d a hd
    have hm : a.enqueued = true ∧ m.Reached d a := by
      rcases of_setConn (·.call.blocked) hd with ⟨rfl, hnew⟩ | ⟨-, hold⟩
      · exact hreached a hnew
      · exact h.reached d a hold
    exact ⟨hm.1, hm.2.of_setConn (fun w n => (hlike.checkpoint (.unparking w n)).2)⟩

theorem waiting_of_grip (h : conn.grip = some st) : conn.call.waiting = none := by
  cases hcall : conn.call <;> simp [Conn.grip, hcall] at h <;> rfl

theorem busy_of_grip (h : conn.grip = some st) : st.busy = true := by
  cases hcall : conn.call <;> simp [Conn.grip, hcall] at h <;> try (obtain rfl := h; rfl)
  · obtain ⟨-, rfl⟩ := h
    rfl

theorem grip_of_waiting (h : conn.call.waiting = some a) : conn.grip = none := by
  cases hg : conn.grip with
  | none => rfl
  | some st =>
    simp [waiting_of_grip hg] at h

theorem writing_of_waiting (h : Inv m) (ha : (m.conns c).call.waiting = some a) :
    (m.conns c).writing = false :=
  not_writing h (fun hidle => by rw [hidle] at ha; cases ha)

/-- A connection changes and has not queued up afterwards.  Only its own slot, its entries in the queue
and its calls change with it. -/
theorem Inv.change (h : Inv m) (hborn : c < m.nextConnId) {live unparked : ℕ → Bool} {nextCall : ℕ}
    (hsame : ∀ d t st, d ≠ c → (slot = some ⟨d, t, st⟩ ↔ m.current = some ⟨d, t, st⟩))
    (hgrip : ∀ st, st.busy = true → (conn.grip = some st ↔ ∃ t, slot = some ⟨c, t, st⟩))
    (hnot : ∀ t, slot ≠ some ⟨c, t, .notified⟩)
    (hwriting : conn.writing = true → conn.call = .idle ∧ conn.holdsSlot = true)
    (hothers : ∀ d a, d ≠ c → (m.conns d).call.waiting = some a →
      live a.call = true ∧ unparked a.call = m.unparked a.call)
    (hqueued : ∀ w ∈ m.writeQueue, live w.call = true → m.live w.call = true ∧ w.id ≠ c)
    (hnext : m.nextCall ≤ nextCall)
    (hnew : ∀ a, conn.call.waiting = some a → a.enqueued = false ∧ live a.call = true ∧
      a.call < nextCall ∧ a.syncToken ≤ m.syncToken ∧
      ∀ d b, (m.conns d).call.waiting = some b → b.call ≠ a.call)
    (hblocked : conn.call.blocked = none)
    (hcheckpoint : ∀ p, conn.call = .checkpointing p → p.drains = false ∧ p.left = none)
    (hunparking : ∀ w n, (m.conns c).call ≠ .checkpointing (.unparking w n)) :
    Inv (({ m with
      current := slot, live := live, unparked := unparked, nextCall := nextCall } :
        Manager).setConn c conn) := by
  constructor
  case held =>
    intro d st hst
    by_cases hd : d = c
    · subst hd
      rw [setConn_conns_self]
      exact hgrip st hst
    · rw [setConn_conns_of_ne hd]
      exact (h.held d st hst).trans (exists_congr fun t => (hsame d t st hd).symm)
  case writing => exact writing_setConn h rfl hwriting
  case notified =>
    intro d t ht
    have hd : d ≠ c := by
      rintro rfl
      exact hnot t ht
    obtain ⟨a, ha, he, hq, hawake⟩ := h.notified d t ((hsame d t _ hd).1 ht)
    refine ⟨a, (setConn_conns_of_ne hd).symm ▸ ha, he, hq, ?_⟩
    rw [Manager.Awake, setConn_conns_of_ne hd]
    exact hawake.imp_right (hothers d a hd ha).2.trans
  case failed =>
    intro d t a ht ha
    rcases of_setConn (·.call.waiting) ha with ⟨-, ha⟩ | ⟨hd, ha⟩
    · exact (hnew a ha).1
    · exact h.failed d t a ((hsame d t _ hd).1 ht) ha
  case waits =>
    intro d a ha
    rcases of_setConn (·.call.waiting) ha with ⟨-, ha⟩ | ⟨hd, ha⟩
    · obtain ⟨-, hl, hlt, htok, -⟩ := hnew a ha
      exact ⟨hl, hlt, htok⟩
    · obtain ⟨-, hlt, htok⟩ := h.waits d a ha
      exact ⟨(hothers d a hd ha).1, Nat.lt_of_lt_of_le hlt hnext, htok⟩
  case placed =>
    intro d a ha he
    rcases of_setConn (·.call.waiting) ha with ⟨-, ha⟩ | ⟨hd, ha⟩
    · simp [(hnew a ha).1] at he
    rcases h.placed d a ha he with hlt | hq | ⟨t, ht⟩
    · exact .inl hlt
    · exact .inr (.inl hq)
    · exact .inr (.inr ⟨t, (hsame d t _ hd).2 ht⟩)
  case unique =>
    intro d e a b ha hb hab
    rcases of_setConn (·.call.waiting) ha with ⟨hd, ha⟩ | ⟨-, ha⟩
    · rcases of_setConn (·.call.waiting) hb with ⟨he, -⟩ | ⟨-, hb⟩
      · exact hd.trans he.symm
      · exact absurd hab.symm ((hnew a ha).2.2.2.2 e b hb)
    · rcases of_setConn (·.call.waiting) hb with ⟨-, hb⟩ | ⟨-, hb⟩
      · exact absurd hab ((hnew b hb).2.2.2.2 d a ha)
      · exact h.unique d e a b ha hb hab
  case queued =>
    intro w hq
    refine ⟨Nat.lt_of_lt_of_le (h.queued w hq).1 hnext, fun hl => ?_⟩
    obtain ⟨hl, hd⟩ := hqueued w hq hl
    obtain ⟨a, ha, hrest⟩ := (h.queued w hq).2 hl
    exact ⟨a, (setConn_conns_of_ne hd).symm ▸ ha, hrest⟩
  case nodup => exact h.nodup
  case synced =>
    intro d p hp hdrains e a ha he
    rcases of_setConn (·.call) hp with ⟨-, hp⟩ | ⟨-, hp⟩
    · simp [(hcheckpoint p hp).1] at hdrains
    · rcases of_setConn (·.call.waiting) ha with ⟨-, ha⟩ | ⟨-, ha⟩
      · simp [(hnew a ha).1] at he
      · exact h.synced d p hp hdrains e a ha he
  case left =>
    intro d p n hp hn
    rcases of_setConn (·.call) hp with ⟨-, hp⟩ | ⟨-, hp⟩
    · simp [(hcheckpoint p hp).2] at hn
    · exact h.left d p n hp hn
  case reached =>
    refine reached_setConn h rfl (fun d a hd hb hr => ?_) hblocked hunparking
    exact hr.imp_right (Or.imp_left (hothers d a hd (waiting_of_blocked hb)).2.trans)
  case unborn => exact unborn_setConn h hborn

/-- A slot in use passes into another state, or is given back, by the connection that uses it. -/
theorem Inv.regrip (h : Inv m) (hcurrent : m.current = some ⟨c, t, st⟩) (hbusy : st.busy = true)
    (hslot : ∀ s, slot = some s → s.id = c ∧ s.state ≠ .notified)
    (hgrip : ∀ st, st.busy = true → (conn.grip = some st ↔ ∃ t, slot = some ⟨c, t, st⟩))
    (hwriting : conn.writing = true → conn.call = .idle ∧ conn.holdsSlot = true)
    (hwaiting : conn.call.waiting = none)
    (hcheckpoint : ∀ p, conn.call = .checkpointing p → p.drains = false ∧ p.left = none)
    (hunparking : ∀ w n, (m.conns c).call ≠ .checkpointing (.unparking w n)) :
    Inv (({ m with current := slot } : Manager).setConn c conn) := by
  have hheld := (h.held c st hbusy).2 ⟨t, hcurrent⟩
  have hblocked : conn.call.blocked = none := by
    cases hb : conn.call.blocked with
    | none => rfl
    | some a => simp [waiting_of_blocked hb] at hwaiting
  refine h.change (born_of_grip h hheld) (fun d t' st' hd => ?_) hgrip
    (fun t' ht' => (hslot _ ht').2 rfl) hwriting (fun d a _ ha => ⟨(h.waits d a ha).1, rfl⟩)
    (fun w hq hl => ⟨hl, ?_⟩) (Nat.le_refl _) (fun a ha => by simp [hwaiting] at ha) hblocked
    hcheckpoint hunparking
  · rw [hcurrent]
    exact iff_of_false (fun ht' => hd (hslot _ ht').1) (by simp [Ne.symm hd])
  · rintro rfl
    obtain ⟨a, ha, -⟩ := (h.queued w hq).2 hl
    simp [waiting_of_grip hheld] at ha

/-! ### The next in the queue -/

theorem scheduleNext_cases (m : Manager) :
    (∃ dead w rest, m.writeQueue = dead ++ w :: rest ∧ (∀ v ∈ dead, m.live v.call = false) ∧
      m.live w.call = true ∧ m.scheduleNext =
        ({ m with
            writeQueue := rest, current := some ⟨w.id, m.now, .notified⟩,
            unparked := update m.unparked w.call true },
          some w.id)) ∨
      ((∀ w ∈ m.writeQueue, m.live w.call = false) ∧
        m.scheduleNext = ({ m with writeQueue := [] }, none)) := by
  have hsplit : m.writeQueue.takeWhile (fun w => !m.live w.call) ++
      m.writeQueue.dropWhile (fun w => !m.live w.call) = m.writeQueue :=
    takeWhile_append_dropWhile ..
  have hdead : ∀ v ∈ m.writeQueue.takeWhile (fun w => !m.live w.call), m.live v.call = false :=
    fun v hv => by simpa using mem_takeWhile_imp hv
  cases hdrop : m.writeQueue.dropWhile (fun w => !m.live w.call) with
  | nil =>
    rw [hdrop, append_nil] at hsplit
    exact .inr ⟨hsplit ▸ hdead, by simp [Manager.scheduleNext, hdrop]⟩
  | cons w rest =>
    refine .inl ⟨_, w, rest, (hdrop ▸ hsplit).symm, hdead, ?_, ?_⟩
    · have := head?_dropWhile_not (fun w => !m.live w.call) m.writeQueue
      simpa [hdrop] using this
    · simp [Manager.scheduleNext, hdrop]

/-- Where nobody uses the slot, passing it to the next in the queue keeps the invariant. -/
theorem inv_scheduleNext (h : Inv m) (hfree : ∀ slot, m.current = some slot → slot.state = .failure) :
    Inv m.scheduleNext.1 := by
  have hnone : ∀ c st, st.busy = true → (m.conns c).grip ≠ some st := by
    intro c st hst hg
    obtain ⟨t, ht⟩ := (h.held c st hst).1 hg
    have := hfree _ ht
    simp only at this
    subst this
    cases hst
  have hidle : ∀ c p, (m.conns c).call ≠ .checkpointing p := by
    intro c p hp
    exact hnone c (.acquired .checkpoint) rfl (by simp [Conn.grip, hp])
  have hnotified : ∀ c t, m.current ≠ some ⟨c, t, .notified⟩ := by
    intro c t ht
    cases hfree _ ht
  obtain ⟨dead, w, rest, hqueue, hdead, hlive, heq⟩ | ⟨hdead, heq⟩ := scheduleNext_cases m
  · rw [heq]
    have hw : w ∈ m.writeQueue := by simp [hqueue]
    obtain ⟨aw, haw, hew, hcw⟩ := (h.queued w hw).2 hlive
    have hnodup : (dead ++ w :: rest).Nodup := hqueue ▸ h.nodup
    have hrest : w ∉ rest := (nodup_cons.1 (nodup_append.1 hnodup).2.1).1
    have hmem : ∀ v ∈ rest, v ∈ m.writeQueue := fun v hv => by simp [hqueue, hv]
    refine { h with
      held := ?held, notified := ?notified, failed := ?failed, placed := ?placed
      queued := fun v hv => h.queued v (hmem v hv)
      nodup := (nodup_cons.1 (nodup_append.1 hnodup).2.1).2
      synced := fun c p hp => absurd hp (hidle c p)
      left := fun c p n hp => absurd hp (hidle c p)
      reached := ?reached }
    case held =>
      intro c st hst
      refine iff_of_false (hnone c st hst) ?_
      rintro ⟨t, ht⟩
      obtain ⟨-, -, rfl⟩ := ht
      cases hst
    case notified =>
      intro c t ht
      obtain ⟨rfl, -, -⟩ := ht
      refine ⟨aw, haw, hew, ?_, .inr ?_⟩
      · rw [hcw]
        exact hrest
      · simp [hcw]
    case failed =>
      intro c t a ht
      simp at ht
    case placed =>
      intro c a ha he
      rcases h.placed c a ha he with hlt | hq | ⟨t, ht⟩
      · exact .inl hlt
      · -- the call has not given up, so its entry was not skipped
        rw [hqueue, mem_append, mem_cons] at hq
        rcases hq with hq | rfl | hq
        · have := (h.waits c a ha).1
          simp [hdead _ hq] at this
        · exact .inr (.inr ⟨_, rfl⟩)
        · exact .inr (.inl hq)
      · exact absurd ht (hnotified c t)
    case reached =>
      intro c a hb
      obtain ⟨he, hr⟩ := h.reached c a hb
      refine ⟨he, ?_⟩
      rcases hr with hq | hu | ⟨d, n, hd⟩
      · rw [hqueue, mem_append, mem_cons] at hq
        rcases hq with hq | rfl | hq
        · have := (h.waits c a (waiting_of_blocked hb)).1
          simp [hdead _ hq] at this
        · exact .inr (.inl (update_self ..))
        · exact .inl hq
      · refine .inr (.inl ?_)
        by_cases hwa : a.call = w.call
        · simp [hwa]
        · exact (update_of_ne hwa ..).trans hu
      · exact absurd hd (hidle d _)
  · rw [heq]
    have hempty : ∀ c a, (m.conns c).call.waiting = some a → ⟨c, a.call⟩ ∉ m.writeQueue := by
      intro c a ha hq
      have := (h.waits c a ha).1
      simp [hdead _ hq] at this
    refine { h with
      notified := fun c t ht => absurd ht (hnotified c t)
      placed := ?placed
      queued := fun v hv => absurd hv not_mem_nil
      nodup := nodup_nil
      left := fun c p n hp => absurd hp (hidle c p)
      reached := ?reached }
    case placed =>
      intro c a ha he
      rcases h.placed c a ha he with hlt | hq | ht
      · exact .inl hlt
      · exact absurd hq (hempty c a ha)
      · exact .inr (.inr ht)
    case reached =>
      intro c a hb
      obtain ⟨he, hq | hrest⟩ := h.reached c a hb
      · exact absurd hq (hempty c a (waiting_of_blocked hb))
      · exact ⟨he, .inr hrest⟩

theorem scheduleNext_same : m.scheduleNext.1.panic = m.panic ∧ m.scheduleNext.1.conns = m.conns ∧
    m.scheduleNext.1.syncToken = m.syncToken := by
  obtain ⟨_, _, _, _, _, _, heq⟩ | ⟨_, heq⟩ := scheduleNext_cases m
  all_goals
    rw [heq]
    exact ⟨rfl, rfl, rfl⟩

/-! ### Giving the slot back -/

theorem inv_release (h : Inv m) (hgrip : (m.conns c).grip.isSome = true)
    (hcall : conn.call = .idle) (hwriting : conn.writing = false)
    (hunparking : ∀ w n, (m.conns c).call ≠ .checkpointing (.unparking w n)) :
    Inv ((m.setConn c conn).release c) ∧ ((m.setConn c conn).release c).panic = m.panic := by
  obtain ⟨st, hgrip⟩ := Option.isSome_iff_exists.1 hgrip
  have hbusy := busy_of_grip hgrip
  obtain ⟨t, hcurrent⟩ := (h.held c st hbusy).1 hgrip
  have hnone : Inv (({ m with current := none } : Manager).setConn c conn) := by
    refine h.regrip hcurrent hbusy (fun _ hs => nomatch hs) (fun st' _ => ?_)
      (fun hw => by rw [hwriting] at hw; cases hw) (by rw [hcall]; rfl)
      (fun p hp => by rw [hcall] at hp; cases hp) hunparking
    simp [Conn.grip, hcall, hwriting]
  have hrelease : (m.setConn c conn).release c =
      (({ m with current := none } : Manager).setConn c conn).scheduleNext.1 := by
    simp only [Manager.release, setConn_current, hcurrent, if_true]
    rfl
  rw [hrelease]
  refine ⟨inv_scheduleNext hnone (fun _ hs => nomatch hs), ?_⟩
  rw [scheduleNext_same.1]
  rfl

/-- A connection that waits gives up, and the slot it may have been notified for becomes free. -/
theorem inv_leave (h : Inv m) (ha : (m.conns c).call.waiting = some a)
    (hslot : slot = m.current ∧ (∀ t, m.current ≠ some ⟨c, t, .notified⟩) ∨
      slot = none ∧ ∃ t, m.current = some ⟨c, t, .notified⟩) :
    Inv (({ m with live := update m.live a.call false, current := slot } : Manager).setConn c
      { m.conns c with call := .idle }) := by
  refine h.change (born_of_waiting h ha) (fun d t st hd => ?_) (fun st hst => ?_) (fun t => ?_)
    (fun hw => by simp [writing_of_waiting h ha] at hw) (fun d b hd hb => ⟨?_, rfl⟩) (fun w hq hl => ?_)
    (Nat.le_refl _) nofun rfl nofun (fun w n hp => ?_)
  · rcases hslot with ⟨rfl, -⟩ | ⟨rfl, t', ht'⟩
    · exact Iff.rfl
    · simp [ht', Ne.symm hd]
  · refine iff_of_false (by simp [Conn.grip, writing_of_waiting h ha]) ?_
    rintro ⟨t, ht⟩
    rcases hslot with ⟨rfl, -⟩ | ⟨rfl, -⟩
    · have hgrip := (h.held c st hst).2 ⟨t, ht⟩
      simp [grip_of_waiting ha] at hgrip
    · cases ht
  · rcases hslot with ⟨rfl, hno⟩ | ⟨rfl, -⟩
    · exact hno t
    · nofun
  · have hne : b.call ≠ a.call := fun hcall => hd (h.unique d c b a hb ha hcall)
    rw [update_of_ne hne]
    exact (h.waits d b hb).1
  · have hne : w.call ≠ a.call := by
      intro heq
      simp [heq] at hl
    rw [update_of_ne hne] at hl
    refine ⟨hl, fun hd => ?_⟩
    obtain ⟨b, hb, -, hcall⟩ := (h.queued w hq).2 hl
    rw [hd, ha] at hb
    exact hne (hcall ▸ congrArg Acquire.call (Option.some.inj hb).symm)
  · rw [hp] at ha
    cases ha

theorem scheduleNext_setConn :
    (m.setConn c conn).scheduleNext.1 = m.scheduleNext.1.setConn c conn := by
  simp only [Manager.scheduleNext, setConn_writeQueue, setConn_live]
  cases m.writeQueue.dropWhile (fun w => !m.live w.call) <;> rfl

theorem inv_giveUp (h : Inv m) (ha : (m.conns c).call.waiting = some a) :
    Inv ((m.giveUp c a).setCall c .idle) ∧ ((m.giveUp c a).setCall c .idle).panic = m.panic := by
  by_cases hn : ∃ t, m.current = some ⟨c, t, .notified⟩
  · have hfree := inv_leave h ha (.inr ⟨rfl, hn⟩)
    obtain ⟨t, ht⟩ := hn
    have heq : (m.giveUp c a).setCall c .idle =
        (({ m with live := update m.live a.call false, current := none } :
          Manager).setConn c { m.conns c with call := .idle }).scheduleNext.1 := by
      rw [scheduleNext_setConn]
      simp [Manager.giveUp, Manager.setCall, ht, scheduleNext_same]
    rw [heq]
    refine ⟨inv_scheduleNext hfree (fun _ hs => nomatch hs), ?_⟩
    rw [scheduleNext_same.1]
    rfl
  · have hstay := inv_leave h ha (.inl ⟨rfl, fun t ht => hn ⟨t, ht⟩⟩)
    have heq : m.giveUp c a = { m with live := update m.live a.call false } := by
      unfold Manager.giveUp
      simp only
      split
      · rename_i id t hcur
        rw [if_neg (fun hid : id = c => hn ⟨t, hid ▸ hcur⟩)]
      · rfl
    rw [heq]
    exact ⟨hstay, rfl⟩

end

end SqlAnywhere.Server
