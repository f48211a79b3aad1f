import SqlAnywhere.Server.WriteSlot.Invariant

/-!
# The loop of `acquire`, and checkpoints

* `inv_turn` — one turn of the loop keeps the invariant
* `inv_checkpointing` — so does a checkpoint that drains the queue
-/

namespace SqlAnywhere.Server

open Function List Option

section

variable {m m' : Manager} {c d : ConnId} {conn : Conn} {a b : Acquire} {st : SlotState} {t : ℕ}
  {call : Call}

/-! ### Waiting -/

theorem inv_readToken (h : Inv m) {type : SlotType} (hcall : (m.conns c).call = .entering type) :
    Inv (({ m with
      live := update m.live m.nextCall true,
      unparked := update m.unparked m.nextCall false,
      nextCall := m.nextCall + 1 } : Manager).setConn c
        { m.conns c with call := .looping ⟨type, m.nextCall, m.syncToken, false⟩ }) := by
  have hnot : (m.conns c).call.waiting = none := by
    rw [hcall]
    rfl
  have hidle : (m.conns c).call ≠ .idle := by simp [hcall]
  have hne : ∀ d a, (m.conns d).call.waiting = some a → a.call ≠ m.nextCall :=
    fun d a ha => Nat.ne_of_lt (h.waits d a ha).2.1
  refine h.change (born_of_call h hidle) (fun _ _ _ _ => Iff.rfl) (fun st hst => ?_) (fun t ht => ?_)
    (fun hw => by simp [not_writing h hidle] at hw) (fun d a _ ha => ?_) (fun w hq hl => ?_)
    (Nat.le_succ _) ?_ rfl nofun (by simp [hcall])
  · have hgrip := h.held c st hst
    simp only [Conn.grip, hcall] at hgrip ⊢
    exact hgrip
  · obtain ⟨a, ha, -⟩ := h.notified c t ht
    simp [hnot] at ha
  · rw [update_of_ne (hne d a ha), update_of_ne (hne d a ha)]
    exact ⟨(h.waits d a ha).1, rfl⟩
  · rw [update_of_ne (Nat.ne_of_lt (h.queued w hq).1)] at hl
    refine ⟨hl, ?_⟩
    rintro rfl
    obtain ⟨a, ha, -⟩ := (h.queued w hq).2 hl
    simp [hnot] at ha
  · rintro _ ⟨⟩
    exact ⟨rfl, update_self .., Nat.lt_succ_self _, Nat.le_refl _, hne⟩

/-- Nobody drains the queue while another connection looks at a slot that is not checkpointed. -/
theorem not_drains (h : Inv m) (hno : m.checkpointed c = false)
    (hcall : (m.conns c).call = .looping a) {p : Checkpoint} :
    (m.conns d).call ≠ .checkpointing p := by
  intro hp
  obtain ⟨t, ht⟩ := (h.held d (.acquired .checkpoint) rfl).1 (by simp [Conn.grip, hp])
  have hd : d ≠ c := by
    rintro rfl
    simp [hcall] at hp
  simp [Manager.checkpointed, ht, hd] at hno

theorem inv_queueUp (h : Inv m) (hcall : (m.conns c).call = .looping a)
    (hno : m.checkpointed c = false)
    (hown : ∀ slot, m.current = some slot → slot.id ≠ c) (hnew : a.enqueued = false) :
    Inv (({ m with writeQueue := m.writeQueue ++ [⟨c, a.call⟩] } : Manager).setConn c
      { m.conns c with call := .looping { a with enqueued := true } }) := by
  have ha : (m.conns c).call.waiting = some a := by
    rw [hcall]
    rfl
  have hw := writing_of_waiting h ha
  -- the entry is new: an entry of this call would be one of a call that has queued up
  have hfresh : ∀ w ∈ m.writeQueue, w.call ≠ a.call := by
    intro w hq heq
    obtain ⟨b, hb, he, hbcall⟩ := (h.queued w hq).2 (heq ▸ (h.waits c a ha).1)
    have hid := h.unique w.id c b a hb ha (hbcall.trans heq)
    rw [hid, ha] at hb
    cases hb
    simp [hnew] at he
  constructor
  case held => exact held_setConn h rfl rfl (by simp only [Conn.grip, hcall])
  case writing => exact writing_setConn h rfl (fun h' => by simp [hw] at h')
  case notified =>
    intro d t ht
    have hd : d ≠ c := fun hd => hown _ ht hd
    obtain ⟨b, hb, he, hq, hawake⟩ := h.notified d t ht
    refine ⟨b, (setConn_conns_of_ne hd).symm ▸ hb, he, ?_, ?_⟩
    · rw [setConn_writeQueue, mem_append, mem_singleton]
      rintro (hq' | hq')
      · exact hq hq'
      · exact hd (congrArg Waiter.id hq')
    · rw [Manager.Awake, setConn_conns_of_ne hd]
      exact hawake
  case failed =>
    intro d t b ht hb
    rcases of_setConn (·.call.waiting) hb with ⟨rfl, -⟩ | ⟨-, hb⟩
    · exact absurd rfl (hown _ ht)
    · exact h.failed d t b ht hb
  case waits =>
    intro d b hb
    rcases of_setConn (·.call.waiting) hb with ⟨-, ⟨⟩⟩ | ⟨-, hb⟩
    · exact h.waits c a ha
    · exact h.waits d b hb
  case placed =>
    intro d b hb he
    rw [setConn_writeQueue, mem_append, mem_singleton]
    rcases of_setConn (·.call.waiting) hb with ⟨rfl, ⟨⟩⟩ | ⟨-, hb⟩
    · exact .inr (.inl (.inr rfl))
    rcases h.placed d b hb he with hlt | hq | ht
    · exact .inl hlt
    · exact .inr (.inl (.inl hq))
    · exact .inr (.inr ht)
  case unique =>
    have hback : ∀ {d b}, d = c ∧ some { a with enqueued := true } = some b ∨
        d ≠ c ∧ (m.conns d).call.waiting = some b →
        ∃ b', (m.conns d).call.waiting = some b' ∧ b'.call = b.call := by
      rintro d b (⟨rfl, ⟨⟩⟩ | ⟨-, hb⟩)
      · exact ⟨a, ha, rfl⟩
      · exact ⟨b, hb, rfl⟩
    intro d e b b' hb hb' hcalls
    obtain ⟨b₁, hb₁, h₁⟩ := hback (of_setConn (·.call.waiting) hb)
    obtain ⟨b₂, hb₂, h₂⟩ := hback (of_setConn (·.call.waiting) hb')
    exact h.unique d e b₁ b₂ hb₁ hb₂ (h₁.trans (hcalls.trans h₂.symm))
  case queued =>
    intro w hq
    rw [setConn_writeQueue, mem_append, mem_singleton] at hq
    rcases hq with hq | rfl
    · refine ⟨(h.queued w hq).1, fun hl => ?_⟩
      obtain ⟨b, hb, he, hbcall⟩ := (h.queued w hq).2 hl
      have hd : w.id ≠ c := by
        intro hd
        rw [hd, ha] at hb
        cases hb
        exact hfresh w hq hbcall.symm
      exact ⟨b, (setConn_conns_of_ne hd).symm ▸ hb, he, hbcall⟩
    · refine ⟨(h.waits c a ha).2.1, fun _ => ⟨{ a with enqueued := true }, ?_, rfl, rfl⟩⟩
      rw [setConn_conns_self]
      rfl
  case nodup =>
    refine nodup_append.2 ⟨h.nodup, by simp, ?_⟩
    intro w hw' v hv heq
    rw [mem_singleton] at hv
    exact hfresh w hw' (by rw [heq, hv])
  case synced =>
    intro d p hp
    obtain ⟨-, ⟨⟩⟩ | ⟨-, hp⟩ := of_setConn (·.call) hp
    exact absurd hp (not_drains h hno hcall)
  case left =>
    intro d p n hp
    obtain ⟨-, ⟨⟩⟩ | ⟨-, hp⟩ := of_setConn (·.call) hp
    exact absurd hp (not_drains h hno hcall)
  case reached =>
    refine reached_setConn h rfl (fun d b _ _ hr => ?_) rfl (by simp [hcall])
    rcases hr with hq | hrest
    · exact .inl (mem_append_left _ hq)
    · exact .inr hrest
  case unborn => exact unborn_setConn h (born_of_waiting h ha)

/-- A connection that waits takes a slot that nobody uses, which is its own. -/
theorem inv_take (h : Inv m) (ha : (m.conns c).call.waiting = some a)
    (hcurrent : m.current = some ⟨c, t, st⟩) (hfree : st.busy = false) (t' : ℕ) (type : SlotType) :
    Inv (({ m with current := some ⟨c, t', .acquiring⟩ } : Manager).setConn c
      { m.conns c with call := .acquired type }) := by
  -- its entry is no longer in the queue, or never was
  have hgone : ∀ w ∈ m.writeQueue, m.live w.call = true → w.id ≠ c := by
    intro w hq hl hid
    obtain ⟨b, hb, he, hbcall⟩ := (h.queued w hq).2 hl
    rw [hid] at hb
    cases st with
    | notified =>
      obtain ⟨b', hb', -, hq', -⟩ := h.notified c t hcurrent
      rw [hb] at hb'
      cases hb'
      exact hq' (by rw [hbcall, ← hid]; exact hq)
    | failure =>
      simp [h.failed c t b hcurrent hb] at he
    | acquiring | acquired => cases hfree
  refine h.change (born_of_waiting h ha) (fun d t'' st' hd => ?_) (by simp [Conn.grip]) (by simp)
    (fun hw => by simp [writing_of_waiting h ha] at hw) (fun d b _ hb => ⟨(h.waits d b hb).1, rfl⟩)
    (fun w hq hl => ⟨hl, hgone w hq hl⟩) (Nat.le_refl _) nofun rfl nofun (fun w n hp => ?_)
  · rw [hcurrent]
    exact iff_of_false (by simp [Ne.symm hd]) (by simp [Ne.symm hd])
  · rw [hp] at ha
    cases ha

theorem like_of_waiting (h : Inv m) (ha : (m.conns c).call.waiting = some a)
    (hcall : call.waiting = some a) : (m.conns c).Like { m.conns c with call := call } where
  grip := by
    rw [grip_of_waiting ha]
    exact grip_of_waiting hcall
  waiting := hcall.trans ha.symm
  writing hw := by
    simp [writing_of_waiting h ha] at hw
  checkpoint p := by
    refine iff_of_false (fun hp => ?_) (fun hp => ?_)
    · simp only at hp
      rw [hp] at hcall
      cases hcall
    · rw [hp] at ha
      cases ha

theorem inv_wait (h : Inv m) (ha : (m.conns c).call.waiting = some a) (he : a.enqueued = true)
    (hsync : m.syncToken = a.syncToken) (hcall : call.waiting = some a)
    (hno : ∀ t, m.current ≠ some ⟨c, t, .notified⟩) :
    Inv (m.setConn c { m.conns c with call := call }) := by
  refine h.setConn (born_of_waiting h ha) (like_of_waiting h ha hcall)
    (fun t _ ht => absurd ht (hno t)) ?_
  intro b hb
  obtain rfl : a = b := some.inj (hcall.symm.trans (waiting_of_blocked hb))
  refine ⟨he, .inl ?_⟩
  rcases h.placed c a ha he with hlt | hq | ⟨t, ht⟩
  · omega
  · exact hq
  · exact absurd ht (hno t)

theorem inv_stay (h : Inv m) (ha : (m.conns c).call.blocked = some a)
    (hcall : call.blocked = some a) : Inv (m.setCall c call) := by
  have hwaiting := waiting_of_blocked ha
  refine h.setConn (born_of_waiting h hwaiting)
    (like_of_waiting h hwaiting (waiting_of_blocked hcall)) ?_ ?_
  · intro t b _ hb hawake
    obtain rfl : a = b := some.inj ((waiting_of_blocked hcall).symm.trans hb)
    refine .inr (hawake.resolve_left (fun hloop => ?_))
    rw [hloop] at ha
    cases ha
  · intro b hb
    obtain rfl : a = b := some.inj (hcall.symm.trans hb)
    exact h.reached c a ha

/-- A connection that has queued up and is not drained finds somebody to pass a free slot to, which may
be itself. -/
theorem inv_pass (h : Inv m) (ha : (m.conns c).call.waiting = some a) (he : a.enqueued = true)
    (hsync : m.syncToken = a.syncToken)
    (hfree : ∀ slot, m.current = some slot → slot.state = .failure) :
    ∃ id, m.scheduleNext = (m.scheduleNext.1, some id) ∧
      let m' := if id = c then (m.scheduleNext.1.mark .acquiring).setCall c (.acquired a.type)
        else m.scheduleNext.1.setCall c (.parked a none)
      Inv m' ∧ m'.panic = m.panic := by
  have hnext := inv_scheduleNext h hfree
  have ha' : (m.scheduleNext.1.conns c).call.waiting = some a := by rwa [scheduleNext_same.2.1]
  have hsync' : m.scheduleNext.1.syncToken = a.syncToken := by rwa [scheduleNext_same.2.2]
  obtain ⟨id, t, hid, hcurrent⟩ : ∃ id t, m.scheduleNext.2 = some id ∧
      m.scheduleNext.1.current = some ⟨id, t, .notified⟩ := by
    obtain ⟨_, w, _, _, _, _, heq⟩ | ⟨hdead, -⟩ := scheduleNext_cases m
    · rw [heq]
      exact ⟨w.id, m.now, rfl, rfl⟩
    · rcases h.placed c a ha he with hlt | hq | ⟨t, ht⟩
      · omega
      · have := (h.waits c a ha).1
        simp [hdead _ hq] at this
      · cases hfree _ ht
  refine ⟨id, Prod.ext rfl hid, ?_⟩
  by_cases hc : id = c
  · subst hc
    simp only [if_true, Manager.mark, hcurrent]
    exact ⟨inv_take hnext ha' hcurrent rfl t a.type, scheduleNext_same.1⟩
  · simp only [if_neg hc]
    refine ⟨inv_wait hnext ha' he hsync' rfl (fun t' ht' => ?_), scheduleNext_same.1⟩
    rw [hcurrent] at ht'
    simp only [some.injEq, Slot.mk.injEq] at ht'
    exact hc ht'.1

theorem inv_claim (T : Timeouts) (h : Inv m) (hcall : (m.conns c).call = .looping a)
    (hsync : m.syncToken = a.syncToken)
    (henqueued : (∀ slot, m.current = some slot → slot.id ≠ c) → a.enqueued = true) :
    Inv (m.claim T c a) ∧ (m.claim T c a).panic = m.panic := by
  have ha : (m.conns c).call.waiting = some a := by
    rw [hcall]
    rfl
  cases hcurrent : m.current with
  | none =>
    obtain ⟨id, hid, hpass⟩ := inv_pass h ha (henqueued (by simp [hcurrent])) hsync
      (by simp [hcurrent])
    rw [Manager.claim, hcurrent]
    simp only [Manager.takeFree]
    rw [hid]
    exact hpass
  | some slot =>
    obtain ⟨id, t, st⟩ := slot
    rw [Manager.claim, hcurrent]
    by_cases hid : id = c
    · subst hid
      have hnot : st.busy = false := by
        by_contra hbusy
        have := (h.held id st (by simpa using hbusy)).2 ⟨t, hcurrent⟩
        simp [grip_of_waiting ha] at this
      have htake := inv_take h ha hcurrent hnot t a.type
      cases st with
      | notified | failure =>
        simp only [Manager.mark, hcurrent]
        exact ⟨htake, rfl⟩
      | acquiring | acquired => cases hnot
    · have hno : ∀ t, m.current ≠ some ⟨c, t, .notified⟩ := by
        intro t' ht'
        rw [hcurrent] at ht'
        simp only [some.injEq, Slot.mk.injEq] at ht'
        exact hid ht'.1
      have he := henqueued (by simpa [hcurrent] using hid)
      have hwait : ∀ call : Call, call.waiting = some a →
          Inv (m.setCall c call) ∧ (m.setCall c call).panic = m.panic :=
        fun call hw => ⟨inv_wait h ha he hsync hw hno, rfl⟩
      simp only [if_neg hid, Manager.waitFor]
      cases st with
      | notified | acquiring => exact hwait _ rfl
      | acquired _ =>
        simp only
        split_ifs <;> exact hwait _ rfl
      | failure =>
        simp only
        by_cases hlate : t + T.acquireTimeout ≤ m.now
        · rw [if_pos hlate]
          obtain ⟨id', hid', hpass⟩ := inv_pass h ha he hsync (by simp [hcurrent])
          rw [hid']
          exact hpass
        · rw [if_neg hlate]
          exact hwait _ rfl

theorem inv_turn (T : Timeouts) (h : Inv m) (hcall : (m.conns c).call = .looping a) :
    Inv (m.turn T c a) ∧ (m.turn T c a).panic = m.panic := by
  have ha : (m.conns c).call.waiting = some a := by
    rw [hcall]
    rfl
  unfold Manager.turn
  by_cases hgive : (m.syncToken ≠ a.syncToken || m.checkpointed c) = true
  · rw [if_pos hgive]
    exact inv_giveUp h ha
  · rw [if_neg hgive]
    simp only [Bool.or_eq_true, decide_eq_true_eq, not_or, not_not, Bool.not_eq_true] at hgive
    obtain ⟨hsync, hno⟩ := hgive
    unfold Manager.enqueue
    by_cases hq : (m.current.all (fun slot => slot.id ≠ c) && !a.enqueued) = true
    · rw [if_pos hq]
      simp only [Bool.and_eq_true, Option.all_eq_true, decide_eq_true_eq, Bool.not_eq_true'] at hq
      have hup := inv_queueUp h hcall hno hq.1 hq.2
      refine inv_claim T hup ?_ hsync (fun _ => rfl)
      rw [setCall_conns_self]
    · rw [if_neg hq]
      refine inv_claim T h hcall hsync (fun hown => ?_)
      by_contra he
      refine hq ?_
      simp only [Bool.and_eq_true, Option.all_eq_true, decide_eq_true_eq, Bool.not_eq_true']
      exact ⟨hown, by simpa using he⟩

/-! ### Checkpoints -/

/-- A checkpoint goes on: it may take waiters off the queue and wake them up, once `sync_token` is
ahead of them all. -/
theorem inv_checkpointing (h : Inv m) {p p' : Checkpoint}
    (hcall : (m.conns c).call = .checkpointing p) {queue : List Waiter} {token : ℕ}
    {unparked : ℕ → Bool} (hqueue : queue.Sublist m.writeQueue) (htoken : m.syncToken ≤ token)
    (hahead : queue = m.writeQueue ∧ p'.drains = false ∨
      ∀ d a, (m.conns d).call.waiting = some a → a.enqueued = true → a.syncToken < token)
    (hleft : ∀ n, p'.left = some n → queue.length = n)
    (hreached : ∀ w, (w ∈ m.writeQueue ∨ m.unparked w.call = true ∨ ∃ n, p = .unparking w n) →
      (w ∈ queue ∨ unparked w.call = true ∨ ∃ n, p' = .unparking w n)) :
    Inv (({ m with writeQueue := queue, syncToken := token, unparked := unparked } :
      Manager).setConn c { m.conns c with call := .checkpointing p' }) := by
  have hidle : (m.conns c).call ≠ .idle := by simp [hcall]
  have hw := not_writing h hidle
  have hgrip : (m.conns c).grip = some (.acquired .checkpoint) := by simp [Conn.grip, hcall]
  obtain ⟨t, hcurrent⟩ := (h.held c _ rfl).1 hgrip
  have honly : ∀ d p, (m.conns d).call = .checkpointing p → d = c := by
    intro d q hq
    obtain ⟨t', ht'⟩ := (h.held d (.acquired .checkpoint) rfl).1 (by simp [Conn.grip, hq])
    rw [hcurrent] at ht'
    simpa using (congrArg (Option.map Slot.id) ht').symm
  have hwaiting : (Call.checkpointing p').waiting = (m.conns c).call.waiting := by
    rw [hcall]
    rfl
  constructor
  case held => exact held_setConn h rfl rfl (by simp only [Conn.grip, hcall])
  case writing => exact writing_setConn h rfl (fun h' => by simp [hw] at h')
  case notified =>
    intro d t' ht'
    rw [setConn_current, hcurrent] at ht'
    simp at ht'
  case failed =>
    intro d t' a ht'
    rw [setConn_current, hcurrent] at ht'
    simp at ht'
  case waits =>
    intro d a ha
    rw [waiting_setConn rfl hwaiting] at ha
    obtain ⟨hl, hlt, htok⟩ := h.waits d a ha
    exact ⟨hl, hlt, htok.trans htoken⟩
  case placed =>
    intro d a ha he
    rw [waiting_setConn rfl hwaiting] at ha
    rcases hahead with ⟨rfl, -⟩ | hahead
    · rcases h.placed d a ha he with hlt | hrest
      · exact .inl (hlt.trans_le htoken)
      · exact .inr hrest
    · exact .inl (hahead d a ha he)
  case unique =>
    intro d e a b ha hb
    rw [waiting_setConn rfl hwaiting] at ha hb
    exact h.unique d e a b ha hb
  case queued =>
    intro w hq
    rw [waiting_setConn rfl hwaiting]
    exact h.queued w (hqueue.subset hq)
  case nodup => exact h.nodup.sublist hqueue
  case synced =>
    intro d q hq hdrains e a ha he
    rw [waiting_setConn rfl hwaiting] at ha
    rcases hahead with ⟨-, hno⟩ | hahead
    · rcases of_setConn (·.call) hq with ⟨-, ⟨⟩⟩ | ⟨hd, hq⟩
      · simp [hno] at hdrains
      · exact absurd (honly d q hq) hd
    · exact hahead e a ha he
  case left =>
    intro d q n hq hn
    rcases of_setConn (·.call) hq with ⟨-, ⟨⟩⟩ | ⟨hd, hq⟩
    · exact hleft n hn
    · exact absurd (honly d q hq) hd
  case reached =>
    intro d a hb
    obtain ⟨-, ⟨⟩⟩ | ⟨hd, hb⟩ := of_setConn (·.call.blocked) hb
    obtain ⟨he, hr⟩ := h.reached d a hb
    refine ⟨he, ?_⟩
    have hr' : ⟨d, a.call⟩ ∈ m.writeQueue ∨ m.unparked a.call = true ∨
        ∃ n, p = .unparking ⟨d, a.call⟩ n := by
      refine hr.imp_right (Or.imp_right ?_)
      rintro ⟨e, n, hn⟩
      rw [honly e _ hn, hcall] at hn
      exact ⟨n, by simpa using hn⟩
    rcases hreached _ hr' with hq | hu | ⟨n, rfl⟩
    · exact .inl hq
    · exact .inr (.inl hu)
    · exact .inr (.inr ⟨c, n, by rw [setConn_conns_self]⟩)
  case unborn => exact unborn_setConn h (born_of_call h hidle)

end

end SqlAnywhere.Server
