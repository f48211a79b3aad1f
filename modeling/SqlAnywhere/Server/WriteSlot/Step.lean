import SqlAnywhere.Server.WriteSlot.Abort

/-!
# No connection waits in vain, and no two use the slot

* `next_keeps`, `run_inv` — every step keeps the invariant, so it holds in every state reached
* `waiting_reached` — what becomes of a connection that waits for the slot
* `slot_exclusive` — at most one connection uses the slot, and with safe steps no assertion fails
* `owner_closes` — without them one does
-/

namespace SqlAnywhere.Server

open Function Bool

section

variable {T : Timeouts} {m m' : Manager} {c d : ConnId} {conn : Conn} {a b : Acquire} {st : SlotState} {t : ℕ}

/-! ### Every step -/

/-- Steps that change nothing but the clock, the handles or the panic. -/
theorem Inv.same (h : Inv m) (hcurrent : m'.current = m.current)
    (hqueue : m'.writeQueue = m.writeQueue) (hlive : m'.live = m.live)
    (htoken : m'.syncToken = m.syncToken) (hcall : m'.nextCall = m.nextCall)
    (hconns : m'.conns = m.conns) (hunparked : m'.unparked = m.unparked)
    (hnext : m'.nextConnId = m.nextConnId) : Inv m' := by
  refine h.frame hcurrent hqueue hlive htoken hcall ?_ ?_ ?_ ?_
  · rw [hconns]
    exact fun d => .refl (h.writing d)
  · intro d t a _ _ hawake
    rw [Manager.Awake, hconns, hunparked]
    exact hawake
  · intro d a
    rw [Manager.Reached, hconns, hqueue, hunparked]
    exact h.reached d a
  · rw [hconns, hnext]
    exact h.unborn

theorem inv_fail (h : Inv m) (p : Panic) : Inv (m.fail p) :=
  h.same rfl rfl rfl rfl rfl rfl rfl rfl

theorem inv_idle (h : Inv m) (hready : (m.conns c).ready = true)
    (hcall : conn.call = .idle ∨ (m.conns c).writing = false ∧ ∃ type, conn.call = .entering type)
    (hwriting : conn.writing = (m.conns c).writing)
    (hholds : conn.holdsSlot = (m.conns c).holdsSlot) : Inv (m.setConn c conn) := by
  have hidle := idle_of_ready hready
  have hborn := born_of_ready h hready
  rcases hcall with hcall | ⟨hw, type, hcall⟩
  · refine h.setConn hborn ⟨?_, by rw [hcall, hidle], ?_, by simp [hcall, hidle]⟩
      (by simp [hcall, Call.waiting]) (by simp [hcall, Call.blocked])
    · simp only [Conn.grip, hcall, hidle, hwriting]
    · rw [hwriting, hholds]
      exact fun hw => ⟨hcall, (h.writing c hw).2⟩
  · refine h.setConn hborn ⟨?_, ?_, by simp [hwriting, hw], by simp [hcall, hidle]⟩
      (by simp [hcall, Call.waiting]) (by simp [hcall, Call.blocked])
    · simp [Conn.grip, hcall, hidle, hw]
    · rw [hcall, hidle]
      rfl

theorem inv_endWrite (h : Inv m) (hw : (m.conns c).writing = true) :
    Inv (m.endWrite c) ∧ (m.endWrite c).panic = m.panic := by
  have hidle := (h.writing c hw).1
  exact inv_release h (by simp [Conn.grip, hidle, hw]) hidle rfl (by simp [hidle])

theorem inv_forceRollback (h : Inv m) (hready : (m.conns c).ready = true) :
    Inv (m.forceRollback c) ∧ (m.forceRollback c).panic = m.panic := by
  unfold Manager.forceRollback
  by_cases hf : (m.conns c).forcedRollback = true
  · rw [if_pos hf]
    exact ⟨h, rfl⟩
  · rw [if_neg hf]
    by_cases hw : (m.conns c).writing = true
    · simp only [if_pos hw]
      obtain ⟨hend, hpanic⟩ := inv_endWrite h hw
      have hready' : ((m.endWrite c).conns c).ready = true := by
        rw [endWrite_conns, setConn_conns_self]
        exact hready
      exact ⟨inv_idle hend hready' (.inl (idle_of_ready hready')) rfl rfl, hpanic⟩
    · simp only [if_neg hw]
      exact ⟨inv_idle h hready (.inl (idle_of_ready hready)) rfl rfl, rfl⟩

theorem forceRollback_conns_of_ne (hd : d ≠ c) : (m.forceRollback c).conns d = m.conns d := by
  unfold Manager.forceRollback
  split_ifs
  · rfl
  · rw [setConn_conns_of_ne hd, endWrite_conns, setConn_conns_of_ne hd]
  · rw [setConn_conns_of_ne hd]

/-- A parked call is unparked, or its time is up. -/
theorem inv_wake (h : Inv m) {deadline : Option ℕ} (hcall : (m.conns c).call = .parked a deadline) :
    Inv (({ m with unparked := update m.unparked a.call false } : Manager).setCall c
      (.looping a)) := by
  have ha : (m.conns c).call.waiting = some a := by
    rw [hcall]
    rfl
  refine h.frame rfl rfl rfl rfl rfl ?_ ?_ ?_
    (unborn_setConn h (born_of_call h (by simp [hcall])))
  · exact forall_setConn (P := fun d => (m.conns d).Like) (like_of_waiting h ha rfl)
      (fun d _ => .refl (h.writing d))
  · intro d t b _ hb hawake
    by_cases hd : d = c
    · subst hd
      obtain rfl : a = b := Option.some.inj (ha.symm.trans hb)
      exact .inl (by rw [setCall_conns_self])
    · -- the token that the wake-up consumes is not that of another call
      have hne : b.call ≠ a.call := fun hab => hd (h.unique d c b a hb ha hab)
      rcases hawake with hloop | htoken
      · exact .inl (by rw [Manager.setCall, setConn_conns_of_ne hd]; exact hloop)
      · exact .inr ((update_of_ne hne ..).trans htoken)
  · refine reached_setConn h rfl (fun d b hd hb hr => ?_) rfl (by simp [hcall])
    rcases hr with hq | hu | hunparking
    · exact .inl hq
    · have hne : b.call ≠ a.call :=
        fun hab => hd (h.unique d c b a (waiting_of_blocked hb) ha hab)
      exact .inr (.inl ((update_of_ne hne ..).trans hu))
    · exact .inr (.inr hunparking)

theorem inv_mark (h : Inv m) {st' : SlotState} (hgrip : (m.conns c).grip = some st)
    (hbusy : st.busy = true) (hstate : st' ≠ .notified)
    (hgrip' : ∀ s, s.busy = true → (conn.grip = some s ↔ st' = s))
    (hwriting : conn.writing = true → conn.call = .idle ∧ conn.holdsSlot = true)
    (hwaiting : conn.call.waiting = none)
    (hcheckpoint : ∀ p, conn.call = .checkpointing p → p.drains = false ∧ p.left = none)
    (hunparking : ∀ w n, (m.conns c).call ≠ .checkpointing (.unparking w n)) :
    Inv ((m.mark st').setConn c conn) ∧ ((m.mark st').setConn c conn).panic = m.panic := by
  obtain ⟨t, hcurrent⟩ := (h.held c st hbusy).1 hgrip
  simp only [Manager.mark, hcurrent]
  refine ⟨h.regrip hcurrent hbusy ?_ ?_ hwriting hwaiting hcheckpoint hunparking, rfl⟩
  · rintro s hs
    cases hs
    exact ⟨rfl, hstate⟩
  · intro s hs
    rw [hgrip' s hs]
    constructor
    · rintro rfl
      exact ⟨t, rfl⟩
    · rintro ⟨t', ht'⟩
      simpa using (congrArg (Option.map Slot.state) ht')

/-- `end_read_txn`, up to where it releases the slot. -/
theorem inv_endRead (h : Inv m) (hnext : m.next T (.endRead c) = some m') :
    Inv m' ∧ m'.panic = m.panic := by
  simp only [Manager.next] at hnext
  split_ifs at hnext with hready
  have hidle := idle_of_ready hready
  by_cases hw : (m.conns c).writing = true
  · have hgrip : (m.conns c).grip = some (.acquired .writeTxn) := by simp [Conn.grip, hidle, hw]
    obtain ⟨t, hcurrent⟩ := (h.held c _ rfl).1 hgrip
    simp only [hcurrent, (h.writing c hw).2, if_true] at hnext
    cases hnext
    refine ⟨h.setConn (born_of_ready h hready) ⟨hgrip.symm, ?_, by rintro ⟨⟩, ?_⟩
      (by rintro _ _ - ⟨⟩) (by rintro _ ⟨⟩), rfl⟩
    · rw [hidle]
      rfl
    · simp [hidle]
  · rw [not_eq_true] at hw
    have hinv : Inv (m.setConn c { m.conns c with writing := false }) :=
      inv_idle h hready (.inl hidle) hw.symm rfl
    split at hnext
    · rename_i id t type hcurrent _
      have hid : id ≠ c := by
        rintro rfl
        have hgrip := (h.held id (.acquired type) rfl).2 ⟨t, hcurrent⟩
        simp [Conn.grip, hidle, hw] at hgrip
      rw [if_neg hid] at hnext
      cases hnext
      exact ⟨hinv, rfl⟩
    · cases hnext
      exact ⟨hinv, rfl⟩

/-- What a step does: the invariant is kept, and no assertion fails unless a connection to be aborted
is gone. -/
def Keeps (m m' : Manager) : Prop :=
  Inv m' ∧ (Handled m → m'.panic = m.panic)

theorem Quiet.keeps {e : SlotStep} (hq : Quiet m m') (h : Inv m' ∧ m'.panic = m.panic) :
    Keeps m m' ∧ (SafeStep T m e → Handled m → Handled m') :=
  ⟨⟨h.1, fun _ => h.2⟩, fun _ hh => hh.quiet hq⟩

/-- **Every step keeps the invariant**, and no assertion fails but those of an abort; and a safe step
leaves whoever is about to be aborted with a handle. -/
theorem next_keeps {e : SlotStep} (h : Inv m) (hnext : m.next T e = some m') :
    Keeps m m' ∧ (SafeStep T m e → Handled m → Handled m') := by
  cases e <;> simp only [Manager.next] at hnext
  case tick =>
    cases hnext
    exact Quiet.keeps (.same .refl rfl rfl) ⟨h.same rfl rfl rfl rfl rfl rfl rfl rfl, rfl⟩
  case open_ =>
    cases hnext
    have hq : Quiet m (m.setConn m.nextConnId ⟨.idle, .held, false, false, false, 0⟩) :=
      .setConn .refl (fun _ => rfl) rfl
    refine Quiet.keeps (.same hq rfl rfl) ⟨h.frame rfl rfl rfl rfl rfl ?_ ?_ ?_ ?_, rfl⟩
    · refine forall_setConn (P := fun d => (m.conns d).Like) ?_ (fun d _ => .refl (h.writing d))
      rw [h.unborn _ (Nat.le_refl _)]
      exact ⟨rfl, rfl, fun hw => by simp at hw, fun p => by simp⟩
    · intro d t a _ ha hawake
      have hd := born_of_waiting h ha
      simpa [Manager.Awake, update_of_ne (Nat.ne_of_lt hd)] using hawake
    · exact reached_setConn h rfl (fun _ _ _ _ hr => hr) rfl
        (fun w n => by simp [h.unborn _ (Nat.le_refl _)])
    · intro d hd
      exact (update_of_ne (Nat.ne_of_gt hd) ..).trans (h.unborn d (Nat.le_of_lt hd))
  case register c =>
    split_ifs at hnext
    cases hnext
    refine ⟨⟨h.same rfl rfl rfl rfl rfl rfl rfl rfl, fun _ => rfl⟩,
      fun _ hh => ⟨fun d t ht => ?_, hh.held⟩⟩
    by_cases htc : t = c
    · subst htc
      exact update_self ..
    · exact (update_of_ne htc ..).trans (hh.handle d t ht)
  case attach c | noticeRollback c =>
    split_ifs at hnext with hready
    cases hnext
    exact Quiet.keeps (.setConn .refl id (needs_of_ready hready))
      ⟨inv_idle h hready (.inl (idle_of_ready hready)) rfl rfl, rfl⟩
  case detach c =>
    split_ifs at hnext with hready
    cases hnext
    simp only [and_eq_true] at hready
    have hsame : Inv { m with abortHandle := update m.abortHandle c false } :=
      h.same rfl rfl rfl rfl rfl rfl rfl rfl
    refine ⟨⟨inv_idle hsame hready.1 (.inl (idle_of_ready hready.1)) rfl rfl, fun _ => rfl⟩,
      fun hsafe hh => ?_⟩
    exact (hh.loseHandle hsafe).quiet (.setConn .refl id (needs_of_ready hready.1))
  case acquire c type =>
    split_ifs at hnext with hready
    cases hnext
    simp only [and_eq_true, not_eq_true'] at hready
    exact Quiet.keeps (.setConn .refl id rfl)
      ⟨inv_idle h hready.1.1 (.inr ⟨hready.2, type, rfl⟩) rfl rfl, rfl⟩
  case readToken c =>
    split at hnext
    · rename_i type hcall
      cases hnext
      exact Quiet.keeps (.setConn (.same .refl rfl rfl) id rfl) ⟨inv_readToken h hcall, rfl⟩
    · cases hnext
  case turn c =>
    split at hnext
    · rename_i a hcall
      cases hnext
      have hturn := inv_turn T h hcall
      exact ⟨⟨hturn.1, fun _ => hturn.2⟩, fun hsafe hh => handled_turn hh hsafe⟩
    · cases hnext
  case wake c =>
    split at hnext
    · rename_i a deadline hcall
      split_ifs at hnext
      cases hnext
      exact Quiet.keeps (.setConn (.same .refl rfl rfl) id rfl) ⟨inv_wake h hcall, rfl⟩
    · cases hnext
  case lookUp c =>
    split at hnext
    swap
    · cases hnext
    rename_i a target hcall
    split_ifs at hnext with hhandle
    · cases hnext
      have hneeds : (m.conns c).call.needs = some target := by
        rw [hcall]
        rfl
      exact Quiet.keeps (.setConn_of .refl id (by rintro _ ⟨⟩) fun t ht => hneeds.trans ht)
        ⟨inv_stay h (by rw [hcall]; rfl) rfl, rfl⟩
    · cases hnext
      exact ⟨⟨inv_fail h _, fun hh => absurd (hh.handle c target (by rw [hcall]; rfl)) hhandle⟩,
        fun _ hh => hh.quiet (.same .refl rfl rfl)⟩
  case upgrade c =>
    split at hnext
    · rename_i a target hcall
      split_ifs at hnext with hheld
      · cases hnext
        exact Quiet.keeps (.setConn .refl id rfl) ⟨inv_stay h (by rw [hcall]; rfl) rfl, rfl⟩
      · cases hnext
        exact ⟨⟨inv_fail h _, fun hh => absurd (hh.held c target (by rw [hcall]; rfl)) hheld⟩,
          fun _ hh => hh.quiet (.same .refl rfl rfl)⟩
    · cases hnext
  case rollBack c =>
    split at hnext
    swap
    · cases hnext
    rename_i a target hcall
    split_ifs at hnext with hready
    cases hnext
    obtain ⟨hinv, hpanic⟩ := inv_forceRollback h hready
    have hne : c ≠ target := by
      rintro rfl
      simp [idle_of_ready hready] at hcall
    have hcall' : ((m.forceRollback target).conns c).call = .rollingBack a target := by
      rw [forceRollback_conns_of_ne hne, hcall]
    exact Quiet.keeps (.setConn (quiet_forceRollback (needs_of_ready hready)) id rfl)
      ⟨inv_stay hinv (by rw [hcall']; rfl) rfl, hpanic⟩
  case beginWrite c result =>
    split at hnext
    swap
    · cases hnext
    rename_i hcall
    have hgrip : (m.conns c).grip = some .acquiring := by simp [Conn.grip, hcall]
    have hw := not_writing h (c := c) (by simp [hcall])
    cases result with
    | ok =>
      cases hnext
      exact Quiet.keeps (.setConn (.mark .refl) (by rw [mark_conns]; exact id) rfl)
        (inv_mark h hgrip rfl (by rintro ⟨⟩) (fun s _ => by simp [Conn.grip])
          (fun _ => ⟨rfl, rfl⟩) rfl (by rintro _ ⟨⟩) (by simp [hcall]))
    | busy =>
      cases hnext
      refine Quiet.keeps (.setConn (.mark .refl) (by rw [mark_conns]; exact id) rfl)
        (inv_mark h hgrip rfl (by rintro ⟨⟩) (fun s hs => ?_)
          (fun hw' => by simp [hw] at hw') rfl (by rintro _ ⟨⟩) (by simp [hcall]))
      refine iff_of_false (by simp [Conn.grip, hw]) ?_
      rintro rfl
      cases hs
    | error =>
      cases hnext
      exact Quiet.keeps (.release (.setConn .refl id rfl))
        (inv_release h (by rw [hgrip]; rfl) rfl hw (by simp [hcall]))
  case markCheckpoint c =>
    split at hnext
    swap
    · cases hnext
    rename_i hcall
    cases hnext
    have hgrip : (m.conns c).grip = some .acquiring := by simp [Conn.grip, hcall]
    have hw := not_writing h (c := c) (by simp [hcall])
    refine Quiet.keeps (.setConn (.mark .refl) id rfl) (inv_mark h hgrip rfl (by rintro ⟨⟩)
      (fun s _ => by simp [Conn.grip]) (fun hw' => by simp [mark_conns, hw] at hw') rfl ?_
      (by simp [hcall]))
    rintro p ⟨⟩
    exact ⟨rfl, rfl⟩
  case sync c restart =>
    split at hnext
    swap
    · cases hnext
    rename_i hcall
    split_ifs at hnext
    · cases hnext
      exact Quiet.keeps (.setConn (.same .refl rfl rfl) id rfl)
        ⟨inv_checkpointing h hcall (List.Sublist.refl _) (Nat.le_succ _)
          (.inr fun d a ha he => Nat.lt_succ_of_le (h.waits d a ha).2.2) (by rintro _ ⟨⟩)
          (fun w hr => by simpa using hr), rfl⟩
    · cases hnext
      exact Quiet.keeps (.setConn .refl id rfl)
        ⟨inv_checkpointing h hcall (List.Sublist.refl _) (Nat.le_refl _)
          (.inl ⟨rfl, rfl⟩) (by rintro _ ⟨⟩) (fun w hr => by simpa using hr), rfl⟩
  case drain c =>
    split at hnext
    · rename_i hcall
      cases hnext
      exact Quiet.keeps (.setConn .refl id rfl) ⟨inv_checkpointing h hcall (List.Sublist.refl _)
        (Nat.le_refl _) (.inr (h.synced c _ hcall rfl)) (fun n hn => Option.some.inj hn)
        (fun w hr => by simpa using hr), rfl⟩
    · cases hnext
  case steal c =>
    split at hnext
    · rename_i hcall
      cases hnext
      exact Quiet.keeps (.setConn .refl id rfl) ⟨inv_checkpointing h hcall (List.Sublist.refl _)
        (Nat.le_refl _) (.inl ⟨rfl, rfl⟩) (by rintro _ ⟨⟩) (fun w hr => by simpa using hr), rfl⟩
    · rename_i n hcall
      have hleft := h.left c _ _ hcall rfl
      split at hnext
      · rename_i hempty
        simp [hempty] at hleft
      · rename_i w rest hqueue
        cases hnext
        refine Quiet.keeps (.setConn (.same .refl rfl rfl) id rfl) ⟨inv_checkpointing h hcall
          (hqueue ▸ List.sublist_cons_self w rest) (Nat.le_refl _)
          (.inr (h.synced c _ hcall rfl)) (fun k hk => ?_) (fun v hr => ?_), rfl⟩
        · rw [hqueue, List.length_cons] at hleft
          have := Option.some.inj hk
          omega
        · rw [hqueue, List.mem_cons] at hr
          rcases hr with (rfl | hv) | hu | ⟨_, hn⟩
          · exact .inr (.inr ⟨n, rfl⟩)
          · exact .inl hv
          · exact .inr (.inl hu)
          · cases hn
    · cases hnext
  case unpark c =>
    split at hnext
    swap
    · cases hnext
    rename_i w n hcall
    cases hnext
    refine Quiet.keeps (.setConn (.same .refl rfl rfl) id rfl)
      ⟨inv_checkpointing h hcall (List.Sublist.refl _) (Nat.le_refl _)
        (.inr (h.synced c _ hcall rfl)) (fun k hk => ?_) (fun v hr => ?_), rfl⟩
    · rw [← Option.some.inj hk]
      exact h.left c _ _ hcall rfl
    · rcases hr with hv | hu | ⟨_, hn⟩
      · exact .inl hv
      · refine .inr (.inl ?_)
        by_cases hvw : v.call = w.call
        · simp [hvw]
        · exact (update_of_ne hvw ..).trans hu
      · simp only [Checkpoint.unparking.injEq] at hn
        exact .inr (.inl (by simp [hn.1]))
  case finish c | release c =>
    split at hnext
    · rename_i hcall
      cases hnext
      exact Quiet.keeps (.release (.setConn .refl id rfl)) (inv_release h (by simp [Conn.grip, hcall])
        rfl (not_writing h (by simp [hcall])) (by simp [hcall]))
    · cases hnext
  case endWrite c =>
    split_ifs at hnext with hready
    cases hnext
    simp only [and_eq_true] at hready
    exact (quiet_endWrite (needs_of_ready hready.1)).keeps (inv_endWrite h hready.2)
  case endRead c =>
    have hinv := inv_endRead (T := T) h hnext
    split_ifs at hnext with hready
    refine Quiet.keeps ?_ hinv
    split at hnext
    · split_ifs at hnext
      · cases hnext
        exact .setConn .refl id rfl
      · cases hnext
        exact .setConn .refl id (needs_of_ready hready)
    · cases hnext
      exact .setConn .refl id (needs_of_ready hready)
  case drop c =>
    split_ifs at hnext with hready
    cases hnext
    simp only [and_eq_true] at hready
    have hidle := idle_of_ready hready.1.1
    have hneeds := needs_of_ready hready.1.1
    exact ⟨⟨inv_idle h hready.1.1 (.inl hidle) rfl rfl, fun _ => rfl⟩,
      fun hsafe hh => hh.leave hsafe hneeds⟩
  case close c =>
    split_ifs at hnext with hready
    cases hnext
    simp only [and_eq_true, decide_eq_true_eq] at hready
    have hsame : Inv { m with abortHandle := update m.abortHandle c false } :=
      h.same rfl rfl rfl rfl rfl rfl rfl rfl
    have hidle := idle_of_ready hready.1.1
    have hneeds := needs_of_ready hready.1.1
    refine ⟨⟨inv_idle hsame hready.1.1 (.inl hidle) rfl rfl, fun _ => rfl⟩, fun _ hh => ?_⟩
    -- whoever is about to be aborted is still there
    have hnot : ∀ d, (m.conns d).call.needs ≠ some c := by
      intro d hd
      have := hh.held d c hd
      simp [hready.1.2] at this
    exact (hh.loseHandle (fun d hd => hnot d (needs_of_aborts hd))).leave hnot hneeds

theorem step_inv {e : SlotStep} (h : Inv m) (hstep : m.step T e = some m') :
    Keeps m m' := by
  simp only [Manager.step] at hstep
  split_ifs at hstep
  exact (next_keeps h hstep).1

theorem run_inv {es : List SlotStep}
    (hrun : Run.exec (Manager.step T) .new es = some m) : Inv m :=
  Run.exec_keeps (fun _ _ _ h hstep => (step_inv h hstep).1) inv_new hrun

/-- A call of `acquire` that was drained returns when it next looks at the slot. -/
theorem turn_of_drained (h : a.syncToken < m.syncToken) :
    ((m.turn T c a).conns c).call = .idle := by
  have hne : m.syncToken ≠ a.syncToken := Nat.ne_of_gt h
  simp only [Manager.turn, hne, ne_eq, not_false_eq_true, decide_true, Bool.true_or, if_true,
    setCall_conns_self]

/-- **No connection waits in vain**: one that is blocked is queued, or was notified and has a wake-up
pending, or was drained, and then is woken up and returns; and the connection that a slot is notified
to is one that waits. -/
theorem waiting_reached (T : Timeouts) (es : List SlotStep) (m : Manager)
    (hrun : Run.exec (Manager.step T) .new es = some m) :
    (∀ c a, (m.conns c).call.blocked = some a →
      (⟨c, a.call⟩ ∈ m.writeQueue ∧ m.live a.call = true) ∨
      ((∃ t, m.current = some ⟨c, t, .notified⟩) ∧ m.unparked a.call = true) ∨
      (a.syncToken < m.syncToken ∧ m.Reached c a ∧ ((m.turn T c a).conns c).call = .idle)) ∧
    ∀ c t, m.current = some ⟨c, t, .notified⟩ →
      ∃ a, (m.conns c).call.waiting = some a ∧ m.Awake c a := by
  have h := run_inv hrun
  constructor
  · intro c a hb
    have ha := waiting_of_blocked hb
    obtain ⟨he, hreached⟩ := h.reached c a hb
    rcases h.placed c a ha he with hlt | hq | ⟨t, ht⟩
    · exact .inr (.inr ⟨hlt, hreached, turn_of_drained hlt⟩)
    · exact .inl ⟨hq, (h.waits c a ha).1⟩
    obtain ⟨b, hb', -, -, hawake⟩ := h.notified c t ht
    obtain rfl := Option.some.inj (ha.symm.trans hb')
    refine .inr (.inl ⟨⟨t, ht⟩, hawake.resolve_left (fun hloop => ?_)⟩)
    rw [hloop] at hb
    cases hb
  · intro c t ht
    obtain ⟨a, ha, -, -, hawake⟩ := h.notified c t ht
    exact ⟨a, ha, hawake⟩

/-- Two connections open, the first writes and the second waits for it. -/
def contended : List SlotStep :=
  [.open_, .register 0, .open_, .register 1, .acquire 0 .writeTxn, .readToken 0, .turn 0,
    .beginWrite 0 .ok, .acquire 1 .writeTxn, .readToken 1, .turn 1]

theorem waiting_reached_handover :
    ∃ m, Run.exec (Manager.step ⟨5, 1⟩) .new (contended ++ [.endWrite 0]) = some m ∧
      (m.conns 1).call.blocked = some ⟨.writeTxn, 1, 0, true⟩ ∧
      m.current = some ⟨1, 0, .notified⟩ ∧
      ∃ a, (m.conns 1).call.waiting = some a ∧ m.Awake 1 a :=
  ⟨_, rfl, rfl, rfl, (waiting_reached ⟨5, 1⟩ (contended ++ [.endWrite 0]) _ rfl).2 1 0 rfl⟩

theorem handled_new : Handled .new :=
  ⟨nofun, nofun⟩

theorem step_safe {e : SlotStep} (h : Inv m ∧ Handled m ∧ m.panic = none) (hsafe : SafeStep T m e)
    (hstep : m.step T e = some m') : Inv m' ∧ Handled m' ∧ m'.panic = none := by
  obtain ⟨hinv, hhandled, hpanic⟩ := h
  obtain ⟨hinv', hpanic'⟩ := step_inv hinv hstep
  simp only [Manager.step, hpanic, Option.isSome_none, Bool.false_eq_true, if_false] at hstep
  exact ⟨hinv', (next_keeps hinv hstep).2 hsafe hhandled, (hpanic' hhandled).trans hpanic⟩

/-- **At most one connection uses the slot** in any state that is reached, and it is the one that the
slot is acquired by; and where the owners of slots that time out are there to be aborted, no assertion
fails. -/
theorem slot_exclusive (T : Timeouts) (es : List SlotStep) (m : Manager)
    (hrun : Run.exec (Manager.step T) .new es = some m) :
    (∀ c st, st.busy = true →
      ((m.conns c).grip = some st ↔ ∃ t, m.current = some ⟨c, t, st⟩)) ∧
    (∀ c d, (m.conns c).grip.isSome = true → (m.conns d).grip.isSome = true → c = d) ∧
    (Run.Along (Manager.step T) (SafeStep T) .new es → m.panic = none) := by
  have h := run_inv hrun
  refine ⟨h.held, fun c d hc hd => ?_, fun hsafe => ?_⟩
  · obtain ⟨st, hst⟩ := Option.isSome_iff_exists.1 hc
    obtain ⟨st', hst'⟩ := Option.isSome_iff_exists.1 hd
    obtain ⟨t, ht⟩ := (h.held c st (busy_of_grip hst)).1 hst
    obtain ⟨t', ht'⟩ := (h.held d st' (busy_of_grip hst')).1 hst'
    rw [ht] at ht'
    simpa using congrArg (Option.map Slot.id) ht'
  · exact (Run.exec_invariant (I := fun m => Inv m ∧ Handled m ∧ m.panic = none)
      (fun _ _ _ h hsafe hstep => step_safe h hsafe hstep) ⟨inv_new, handled_new, rfl⟩ hsafe
      hrun).2.2

/-- `SafeStep` where no connection detaches or goes away, to be evaluated. -/
def safeTest (T : Timeouts) (m : Manager) : SlotStep → Bool
  | .turn c =>
    match m.current with
    | some ⟨id, t, .acquired _⟩ =>
      id = c || m.now < t + T.txnTimeout || (m.abortHandle id && (m.conns id).life = .held)
    | _ => true
  | .detach _ | .drop _ => false
  | _ => true

theorem safeStep_of_test (m : Manager) (e : SlotStep) (h : safeTest T m e = true) :
    SafeStep T m e := by
  cases e with
  | turn c =>
    intro id t type hcurrent hid htime
    simp only [safeTest, hcurrent, Bool.or_eq_true, decide_eq_true_eq, Bool.and_eq_true] at h
    rcases h with (h | h) | h
    · exact absurd h hid
    · exact absurd htime (Nat.not_le_of_gt h)
    · exact h
  | detach | drop => cases h
  | _ => trivial

/-- The second connection finds the slot timed out, has the first one rolled back and acquires it. -/
def takenOver : List SlotStep :=
  contended ++ [.tick, .wake 1, .turn 1, .lookUp 1, .upgrade 1, .rollBack 1, .wake 1, .turn 1]

theorem slot_exclusive_takenOver :
    ∃ m, Run.exec (Manager.step ⟨1, 1⟩) .new takenOver = some m ∧
      m.current = some ⟨1, 1, .acquiring⟩ ∧ m.panic = none :=
  ⟨_, rfl, rfl, (slot_exclusive ⟨1, 1⟩ takenOver _ rfl).2.2
    (Run.along_mono safeStep_of_test (by decide +kernel))⟩

/-- The second connection finds the slot timed out, and before it looks the handle of the first one up,
that one commits and closes. -/
theorem owner_closes :
    (Run.exec (Manager.step ⟨1, 1⟩) .new
      (contended ++ [.tick, .wake 1, .turn 1, .endWrite 0, .drop 0, .close 0, .lookUp 1])).map
      Manager.panic = some (some .handleNone) :=
  rfl

end

end SqlAnywhere.Server
