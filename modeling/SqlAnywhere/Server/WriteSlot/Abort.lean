import SqlAnywhere.Server.WriteSlot.Waiting

/-!
# The owner of a slot that has timed out

A connection that finds the slot timed out looks the owner's abort handle up and calls it, with no
lock held in between.

* `Handled` — whoever is about to be aborted has a handle and is there
* `SafeStep` — an owner keeps its handle and its connection while it is being aborted
* `Quiet` — what leaves every abort alone
-/

namespace SqlAnywhere.Server

open Function

/-- The connection whose handle is to be looked up. -/
def Call.aborts : Call → Option ConnId
  | .aborting _ target => some target
  | _ => none

/-- The connection whose handle is to be looked up or called. -/
def Call.needs : Call → Option ConnId
  | .aborting _ target | .upgrading _ target => some target
  | _ => none

/-- Whoever is about to be aborted has a handle and is there. -/
structure Handled (m : Manager) : Prop where
  handle : ∀ c t, (m.conns c).call.aborts = some t → m.abortHandle t = true
  held : ∀ c t, (m.conns c).call.needs = some t → (m.conns t).life = .held

/-- What a step must meet so that an abort finds its connection. -/
def SafeStep (T : Timeouts) (m : Manager) : SlotStep → Prop
  | .turn c => ∀ id t type, m.current = some ⟨id, t, .acquired type⟩ → id ≠ c →
      t + T.txnTimeout ≤ m.now → m.abortHandle id = true ∧ (m.conns id).life = .held
  | .detach c => ∀ d, (m.conns d).call.aborts ≠ some c
  | .drop c => ∀ d, (m.conns d).call.needs ≠ some c
  | _ => True

section

variable {T : Timeouts} {m m' m'' : Manager} {c : ConnId} {conn : Conn} {a : Acquire}

/-! ### Steps that do not touch an abort -/

/-- Nobody loses its handle or goes away, and nobody begins to abort another. -/
structure Quiet (m m' : Manager) : Prop where
  handle : ∀ t, m.abortHandle t = true → m'.abortHandle t = true
  held : ∀ t, (m.conns t).life = .held → (m'.conns t).life = .held
  aborts : ∀ c t, (m'.conns c).call.aborts = some t → (m.conns c).call.aborts = some t
  needs : ∀ c t, (m'.conns c).call.needs = some t → (m.conns c).call.needs = some t

theorem Handled.quiet (h : Handled m) (hq : Quiet m m') : Handled m' where
  handle c t ht := hq.handle t (h.handle c t (hq.aborts c t ht))
  held c t ht := hq.held t (h.held c t (hq.needs c t ht))

theorem Quiet.refl : Quiet m m :=
  ⟨fun _ ht => ht, fun _ ht => ht, fun _ _ ht => ht, fun _ _ ht => ht⟩

theorem Quiet.same (h : Quiet m m') (hhandle : m''.abortHandle = m'.abortHandle)
    (hconns : m''.conns = m'.conns) : Quiet m m'' where
  handle t ht := hhandle ▸ h.handle t ht
  held t ht := hconns ▸ h.held t ht
  aborts c t ht := h.aborts c t (hconns ▸ ht)
  needs c t ht := h.needs c t (hconns ▸ ht)

theorem aborts_of_needs {call : Call} (h : call.needs = none) : call.aborts = none := by
  cases call <;> first | rfl | cases h

variable (h : Quiet m m')
include h

theorem Quiet.setConn_of (hlife : (m'.conns c).life = .held → conn.life = .held)
    (haborts : ∀ t, conn.call.aborts = some t → (m.conns c).call.aborts = some t)
    (hneeds : ∀ t, conn.call.needs = some t → (m.conns c).call.needs = some t) :
    Quiet m (m'.setConn c conn) where
  handle := h.handle
  held := forall_setConn (P := fun t conn => (m.conns t).life = .held → conn.life = .held)
    (fun hl => hlife (h.held c hl)) (fun t _ => h.held t)
  aborts := forall_setConn (P := fun d conn => ∀ t, conn.call.aborts = some t →
    (m.conns d).call.aborts = some t) haborts (fun d _ => h.aborts d)
  needs := forall_setConn (P := fun d conn => ∀ t, conn.call.needs = some t →
    (m.conns d).call.needs = some t) hneeds (fun d _ => h.needs d)

theorem Quiet.setConn (hlife : (m'.conns c).life = .held → conn.life = .held)
    (hneeds : conn.call.needs = none) : Quiet m (m'.setConn c conn) :=
  h.setConn_of hlife (by simp [aborts_of_needs hneeds]) (by simp [hneeds])

theorem Quiet.scheduleNext : Quiet m m'.scheduleNext.1 := by
  refine h.same ?_ scheduleNext_same.2.1
  obtain ⟨_, _, _, _, _, _, heq⟩ | ⟨_, heq⟩ := scheduleNext_cases m'
  all_goals rw [heq]

theorem Quiet.of_scheduleNext {next : Option ConnId}
    (heq : m'.scheduleNext = (m'', next)) : Quiet m m'' := by
  have hnext := h.scheduleNext
  rwa [heq] at hnext

theorem Quiet.release : Quiet m (m'.release c) := by
  unfold Manager.release
  split
  · exact h.same rfl rfl
  · split_ifs
    · exact .scheduleNext (h.same rfl rfl)
    · exact h.same rfl rfl

theorem Quiet.mark {st : SlotState} : Quiet m (m'.mark st) := by
  unfold Manager.mark
  split <;> exact h.same rfl rfl

omit h

theorem idle_of_ready (h : conn.ready = true) : conn.call = .idle := by
  cases hc : conn.call with
  | idle => rfl
  | _ => simp [Conn.ready, hc] at h

theorem release_conns : (m.release c).conns = m.conns := by
  unfold Manager.release
  split
  · rfl
  · split_ifs
    · exact scheduleNext_same.2.1
    · rfl

theorem endWrite_conns : (m.endWrite c).conns =
    (m.setConn c { m.conns c with writing := false, holdsSlot := false }).conns :=
  release_conns

theorem mark_conns : (m.mark st).conns = m.conns := by
  unfold Manager.mark
  split <;> rfl

theorem quiet_endWrite (hneeds : (m.conns c).call.needs = none) : Quiet m (m.endWrite c) :=
  .release (.setConn .refl id hneeds)

theorem quiet_forceRollback (hneeds : (m.conns c).call.needs = none) :
    Quiet m (m.forceRollback c) := by
  unfold Manager.forceRollback
  split_ifs
  · exact .refl
  · refine (quiet_endWrite hneeds).setConn id ?_
    rw [endWrite_conns, setConn_conns_self]
    exact hneeds
  · exact Quiet.refl.setConn id hneeds

/-! ### The loop of `acquire` -/

theorem quiet_giveUp : Quiet m (m.giveUp c a) := by
  unfold Manager.giveUp
  simp only
  split
  · split_ifs
    · exact .scheduleNext (.same .refl rfl rfl)
    · exact Quiet.refl.same rfl rfl
  · exact Quiet.refl.same rfl rfl

theorem quiet_enqueue : Quiet m (m.enqueue c a).1 := by
  unfold Manager.enqueue
  split_ifs
  · exact .setConn (.same .refl rfl rfl) id rfl
  · exact .refl

theorem enqueue_current : (m.enqueue c a).1.current = m.current := by
  unfold Manager.enqueue
  split_ifs <;> rfl

theorem enqueue_now : (m.enqueue c a).1.now = m.now := by
  unfold Manager.enqueue
  split_ifs <;> rfl

/-- What `acquire` does with the slot is quiet, unless it finds it timed out. -/
theorem Quiet.claim (h : Quiet m m') (hnot : ∀ id t type, m'.current = some ⟨id, t, .acquired type⟩ →
      id ≠ c → ¬ t + T.txnTimeout ≤ m'.now) : Quiet m (m'.claim T c a) := by
  unfold Manager.claim
  split
  · rename_i slot hcurrent
    obtain ⟨owner, t, st⟩ := slot
    by_cases hid : owner = c
    · rw [if_pos hid]
      cases st with
      | notified | failure => exact h.mark.setConn id rfl
      | acquiring | acquired => exact h.same rfl rfl
    · rw [if_neg hid]
      cases st with
      | notified | acquiring => exact h.setConn id rfl
      | acquired type =>
        simp only [Manager.waitFor, if_neg (hnot owner t type hcurrent hid)]
        exact h.setConn id rfl
      | failure =>
        simp only [Manager.waitFor]
        split_ifs
        · split
          · rename_i m₁ next heq
            split_ifs
            · exact (h.of_scheduleNext heq).mark.setConn id rfl
            · exact (h.of_scheduleNext heq).setConn id rfl
          · rename_i m₁ heq
            exact .setConn ((h.of_scheduleNext heq).same rfl rfl) id rfl
        · exact h.setConn id rfl
  · unfold Manager.takeFree
    split
    · rename_i m₁ next heq
      split_ifs
      · exact (h.of_scheduleNext heq).mark.setConn id rfl
      · exact (h.of_scheduleNext heq).setConn id rfl
    · rename_i m₁ heq
      exact .setConn ((h.of_scheduleNext heq).same rfl rfl) id rfl

/-- One turn of the loop is quiet, or the slot of another connection is found timed out. -/
theorem turn_quiet_or : Quiet m (m.turn T c a) ∨
    ∃ id t type m₁ a₁, m.current = some ⟨id, t, .acquired type⟩ ∧ id ≠ c ∧ t + T.txnTimeout ≤ m.now ∧
      Quiet m m₁ ∧ m.turn T c a = m₁.setCall c (.aborting a₁ id) := by
  unfold Manager.turn
  split_ifs
  · exact .inl (quiet_giveUp.setConn id rfl)
  by_cases hlate : ∃ id t type, m.current = some ⟨id, t, .acquired type⟩ ∧ id ≠ c ∧
      t + T.txnTimeout ≤ m.now
  · obtain ⟨id, t, type, hcurrent, hid, htime⟩ := hlate
    refine .inr ⟨id, t, type, (m.enqueue c a).1, (m.enqueue c a).2, hcurrent, hid, htime,
      quiet_enqueue, ?_⟩
    simp only [Manager.claim, enqueue_current, hcurrent, if_neg hid, Manager.waitFor, enqueue_now,
      if_pos htime]
  · refine .inl (quiet_enqueue.claim (fun id t type hcurrent hid htime => hlate ?_))
    rw [enqueue_current] at hcurrent
    rw [enqueue_now] at htime
    exact ⟨id, t, type, hcurrent, hid, htime⟩

theorem handled_turn (h : Handled m) (hsafe : SafeStep T m (.turn c)) : Handled (m.turn T c a) := by
  rcases turn_quiet_or with hq | ⟨id, t, type, m₁, a₁, hcurrent, hid, htime, hq, heq⟩
  · exact h.quiet hq
  obtain ⟨hhandle, hheld⟩ := hsafe id t type hcurrent hid htime
  have h₁ := h.quiet hq
  have hlife : ∀ t, (m₁.conns t).life = .held →
      ((m₁.setCall c (.aborting a₁ id)).conns t).life = .held :=
    forall_setConn (P := fun t conn => (m₁.conns t).life = .held → conn.life = .held)
      (fun hl => hl) (fun _ _ hl => hl)
  rw [heq]
  constructor
  · intro d u hu
    rcases of_setConn (·.call.aborts) hu with ⟨-, ⟨⟩⟩ | ⟨-, hu⟩
    · exact hq.handle id hhandle
    · exact h₁.handle d u hu
  · intro d u hu
    rcases of_setConn (·.call.needs) hu with ⟨-, ⟨⟩⟩ | ⟨-, hu⟩
    · exact hlife id (hq.held id hheld)
    · exact hlife u (h₁.held d u hu)

/-! ### Connections that go away -/

theorem needs_of_ready (h : conn.ready = true) : conn.call.needs = none := by
  rw [idle_of_ready h]
  rfl

theorem needs_of_aborts {call : Call} {t : ConnId} (h : call.aborts = some t) :
    call.needs = some t := by
  cases call <;> first | exact h | cases h

theorem Handled.loseHandle (h : Handled m) (hnot : ∀ d, (m.conns d).call.aborts ≠ some c) :
    Handled { m with abortHandle := update m.abortHandle c false } where
  handle d t ht := by
    have htc : t ≠ c := by
      rintro rfl
      exact hnot d ht
    exact (update_of_ne htc ..).trans (h.handle d t ht)
  held := h.held

theorem Handled.leave (h : Handled m) (hnot : ∀ d, (m.conns d).call.needs ≠ some c)
    (hneeds : conn.call.needs = none) : Handled (m.setConn c conn) := by
  constructor
  · intro d t ht
    rcases of_setConn (·.call.aborts) ht with ⟨-, hnew⟩ | ⟨-, ht⟩
    · simp [aborts_of_needs hneeds] at hnew
    · exact h.handle d t ht
  · intro d t ht
    rcases of_setConn (·.call.needs) ht with ⟨-, hnew⟩ | ⟨-, hold⟩
    · simp [hneeds] at hnew
    have htc : t ≠ c := by
      rintro rfl
      exact hnot d hold
    rw [setConn_conns_of_ne htc]
    exact h.held d t hold

end

end SqlAnywhere.Server
