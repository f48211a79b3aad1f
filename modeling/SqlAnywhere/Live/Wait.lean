import SqlAnywhere.Live.Fresh

/-!
# Waiting for a change

`LiveQuery::wait`: it subscribes to the version table, refreshes the query once and then after every
announcement.  The subscription outlives a call.

* `Sys.step` — the steps of `wait`, among the commits on the server
* `blocked_seen` — when a call that is blocked has the counters of every commit
-/

namespace SqlAnywhere.Live.Wait

/-- Where `wait` is: not called, or before the named step; `counting`, `resolving`, `reread` and
`running` are the steps of its refresh. -/
inductive Phase
  | idle
  | check
  | subscribing
  | counting
  | resolving
  | reread
  | running
  | blocked
  deriving DecidableEq

/-- The counters are yet to be taken over. -/
def Phase.looking : Phase → Bool
  | .counting | .resolving | .reread => true
  | _ => false

/-- The server's file as it is read there, the live query, its listener, if it has one, with whether
something is to be taken from it, and `wait`. -/
structure Sys where
  view : View
  live : LiveQuery
  listening : Option Bool
  phase : Phase

inductive Action
  | call
  /-- a commit; one that writes the version table is announced to a listener.  The end of a stream
  is taken like an announcement. -/
  | commit (view : View) (announced : Bool)
  | next
  /-- the future is dropped, or what it awaits fails, which costs a blocked call its listener -/
  | stop (failed : Bool)

/-- The call returns. -/
def Sys.ended (s : Sys) : Sys := { s with phase := .idle }

/-- The next step of `wait`.  The connection itself writes nothing meanwhile. -/
def Sys.next (Q : Query) (s : Sys) : Option Sys :=
  match s.phase with
  | .idle => none
  | .check =>
    match s.live.watch with
    | .file => some s.ended
    | .tables _ => some { s with phase := if s.listening.isSome then .blocked else .subscribing }
  | .subscribing => some { s with listening := some false, phase := .counting }
  | .counting =>
    match counters s.live.watch s.view 0 with
    | .error _ => some s.ended
    | .ok now =>
      if now = s.live.seen then some { s with phase := .check }
      else if now.schemaVersion ≠ s.live.seen.schemaVersion then some { s with phase := .resolving }
      else some { s with live := { s.live with seen := now }, phase := .running }
  | .resolving =>
    match resolveWatch Q s.view.db with
    | .error _ => some s.ended
    | .ok watch => some { s with live := { s.live with watch }, phase := .reread }
  | .reread =>
    match counters s.live.watch s.view 0 with
    | .error _ => some s.ended
    | .ok seen => some { s with live := { s.live with seen }, phase := .running }
  | .running =>
    match Q.result s.view.db with
    | .error _ => some s.ended
    | .ok (columns, rows) =>
      match s.live.diff rows with
      | .error _ => some s.ended
      | .ok d =>
        some { s with
          live := { s.live with columns, rows }
          phase := if d.isEmpty then .check else .idle }
  | .blocked =>
    if s.listening = some true then some { s with listening := some false, phase := .counting }
    else none

def Sys.step (Q : Query) (s : Sys) : Action → Option Sys
  | .call => if s.phase = .idle then some { s with phase := .check } else none
  | .commit view announced =>
    if announced || view.db.tracked = s.view.db.tracked then
      some { s with view, listening := s.listening.map (· || announced) }
    else none
  | .next => s.next Q
  | .stop failed =>
    if s.phase = .idle then none
    else
      some { s with
        listening := if failed && s.phase = .blocked then none else s.listening
        phase := .idle }

/-- The counters last seen are those of the watched tables now. -/
def Sys.Caught (s : Sys) : Prop :=
  ∀ names now, s.live.watch = .tables names → counters (.tables names) s.view 0 = .ok now →
    now.changes = s.live.seen.changes

/-- **A refresh that has begun takes the counters over**: it does not fail, and is not dropped,
before. -/
def Completes (Q : Query) (s : Sys) (a : Action) : Prop :=
  s.phase.looking = true → ∀ s' ∈ s.step Q a, s'.phase ≠ .idle

instance (Q : Query) (s : Sys) (a : Action) : Decidable (Completes Q s a) :=
  inferInstanceAs (Decidable (_ → _))

/-- A listener from which nothing is to be taken leaves nothing to be seen, unless it is being looked
for. -/
structure Inv (s : Sys) : Prop where
  listens : s.phase = .blocked → s.listening.isSome = true
  caught : s.listening = some false → s.phase.looking = true ∨ s.Caught

variable {Q : Query} {s s' : Sys} {view : View} {live : LiveQuery} {phase : Phase}

theorem inv_of_looking (h : s.phase.looking = true) : Inv s :=
  ⟨fun hblocked => (by simp [hblocked, Phase.looking] at h), fun _ => .inl h⟩

/-- The counters are taken over. -/
theorem inv_of_counters {seen : Seen} (hseen : counters s.live.watch s.view 0 = .ok seen)
    (hphase : phase ≠ .blocked) :
    Inv { s with live := { s.live with seen }, phase } := by
  refine ⟨fun hblocked => absurd hblocked hphase, fun _ => .inr fun names now hwatch hnow => ?_⟩
  have hwatch : s.live.watch = .tables names := hwatch
  rw [hwatch] at hseen
  rw [Except.ok.inj (hnow.symm.trans hseen)]

/-- `wait` goes on with the counters it has. -/
theorem Inv.goOn (h : Inv s) (hnot : s.phase.looking = false)
    (hwatch : live.watch = s.live.watch) (hseen : live.seen = s.live.seen)
    (hphase : phase = .blocked → s.listening.isSome = true) : Inv { s with live, phase } := by
  refine ⟨hphase, fun hfalse => .inr ?_⟩
  have hcaught := (h.caught hfalse).resolve_left (by simp [hnot])
  unfold Sys.Caught at hcaught ⊢
  rw [← hwatch, ← hseen] at hcaught
  exact hcaught

theorem Inv.next (h : Inv s) (hok : Completes Q s .next) (hstep : s.next Q = some s') : Inv s' := by
  -- a step that ends the call where it was looking is excluded
  have hended : s.phase.looking = true → s'.phase ≠ .idle := fun hlooking => hok hlooking s' hstep
  unfold Sys.next at hstep
  split at hstep <;> rename_i hphase
  · cases hstep
  · split at hstep
    · cases hstep
      exact h.goOn (by rw [hphase]; rfl) rfl rfl nofun
    · cases hstep
      refine h.goOn (by rw [hphase]; rfl) rfl rfl fun hblocked => ?_
      by_contra hnone
      simp [hnone] at hblocked
  · cases hstep
    exact inv_of_looking rfl
  · split at hstep
    · cases hstep
      exact absurd rfl (hended (by rw [hphase]; rfl))
    · next now hnow =>
      split_ifs at hstep with heq hschema
      · cases hstep
        subst heq
        exact inv_of_counters hnow nofun
      · cases hstep
        exact inv_of_looking rfl
      · cases hstep
        exact inv_of_counters hnow nofun
  · split at hstep
    · cases hstep
      exact absurd rfl (hended (by rw [hphase]; rfl))
    · cases hstep
      exact inv_of_looking rfl
  · split at hstep
    · cases hstep
      exact absurd rfl (hended (by rw [hphase]; rfl))
    · next seen hseen =>
      cases hstep
      exact inv_of_counters hseen nofun
  · have hnot : s.phase.looking = false := by rw [hphase]; rfl
    split at hstep
    · cases hstep
      exact h.goOn hnot rfl rfl nofun
    · split at hstep
      · cases hstep
        exact h.goOn hnot rfl rfl nofun
      · cases hstep
        refine h.goOn hnot ?_ ?_ fun hblocked => ?_
        · rfl
        · rfl
        · split at hblocked <;> cases hblocked
  · split_ifs at hstep
    cases hstep
    exact inv_of_looking rfl

theorem Inv.commit (h : Inv s) {announced : Bool}
    (hsaid : announced = true ∨ view.db.tracked = s.view.db.tracked) :
    Inv { s with view, listening := s.listening.map (· || announced) } := by
  refine ⟨fun hblocked => by simpa using h.listens hblocked, fun hfalse => ?_⟩
  obtain ⟨pending, hpending, hor⟩ := Option.map_eq_some_iff.1 hfalse
  obtain ⟨rfl, rfl⟩ := Bool.or_eq_false_iff.1 hor
  refine (h.caught hpending).imp_right fun hcaught names now hwatch hnow => ?_
  -- what is not announced leaves the version table as it was
  have htracked := hsaid.resolve_left nofun
  obtain ⟨hsome, rfl⟩ := counters_tables_iff.1 hnow
  rw [htracked] at hsome
  rw [← hcaught names _ hwatch (counters_tables_iff.2 ⟨hsome, rfl⟩), htracked]

theorem Inv.step (h : Inv s) {a : Action} (hok : Completes Q s a) (hstep : s.step Q a = some s') :
    Inv s' := by
  cases a with
  | call =>
    simp only [Sys.step] at hstep
    split_ifs at hstep with hphase
    cases hstep
    exact h.goOn (by rw [hphase]; rfl) rfl rfl nofun
  | commit view announced =>
    simp only [Sys.step] at hstep
    split_ifs at hstep with hsaid
    cases hstep
    exact h.commit (by simpa using hsaid)
  | next => exact h.next hok hstep
  | stop failed =>
    have hended : s.phase.looking = true → s'.phase ≠ .idle := fun hlooking => hok hlooking s' hstep
    simp only [Sys.step] at hstep
    split_ifs at hstep with hphase hfailed
    all_goals cases hstep
    · exact ⟨nofun, nofun⟩
    · refine h.goOn ?_ rfl rfl nofun
      by_contra hlooking
      exact hended (by simpa using hlooking) rfl

/-- **A call that is blocked has the counters of every commit**: in every run in which a refresh
that has begun takes the counters over, a call that is blocked has those of every commit to its
tables, or has something to take from its listener.  (A call that is dropped while its query runs
has taken them over too, and the change that it has seen is returned by none.) -/
theorem blocked_seen {view : View} {live : LiveQuery} {as : List Action}
    (hok : Run.Along (Sys.step Q) (Completes Q) ⟨view, live, none, .idle⟩ as)
    (hrun : Run.exec (Sys.step Q) ⟨view, live, none, .idle⟩ as = some s)
    (hblocked : s.phase = .blocked) : s.Caught ∨ s.listening = some true := by
  have h : Inv s := Run.exec_invariant (fun s a s' h hok hstep => Inv.step h hok hstep)
    ⟨by rintro ⟨⟩, by rintro ⟨⟩⟩ hok hrun
  obtain ⟨pending, hpending⟩ := Option.isSome_iff_exists.1 (h.listens hblocked)
  cases pending with
  | true => exact .inr hpending
  | false => exact .inl ((h.caught hpending).resolve_left (by simp [hblocked, Phase.looking]))

/-- The table `t`, written `version` times since it is tracked. -/
def written (version : ℕ) : View := ⟨{ oneRow with tracked := some [("t", version)] }, version⟩

/-- A live query that has seen the first version of `t`. -/
def waiting : LiveQuery := ⟨none, ["x"], [[.integer 1]], .tables ["t"], ⟨1, .tables 0 1⟩⟩

/-- The table is written before `wait` subscribes, and seen by its refresh. -/
def looked : List Action :=
  [.call, .next, .commit (written 1) true, .next, .next, .next, .next]

theorem blocked_seen_looked :
    ∃ s, Run.exec (Sys.step selectAll) ⟨written 0, waiting, none, .idle⟩ looked = some s ∧
      s.phase = .blocked ∧ (s.Caught ∨ s.listening = some true) := by
  have halong : Run.Along (Sys.step selectAll) (Completes selectAll)
      ⟨written 0, waiting, none, .idle⟩ looked := by decide +kernel
  exact ⟨_, rfl, rfl, blocked_seen halong rfl rfl⟩

/-- **A refresh that fails is not made up for**: the table is written, `wait` subscribes, its refresh
ends before it has read the counters, and the next call blocks at once. -/
theorem slept_through :
    ∃ s, Run.exec (Sys.step selectAll) ⟨written 0, waiting, none, .idle⟩
        [.call, .next, .commit (written 1) true, .next, .stop true, .call, .next] = some s ∧
      s.phase = .blocked ∧ s.listening = some false ∧ ¬ s.Caught :=
  ⟨_, rfl, rfl, rfl, fun h => absurd (h ["t"] _ rfl rfl) (by decide)⟩

end SqlAnywhere.Live.Wait
