import Mathlib.Tactic.MkIffOfInductiveProp
import SqlAnywhere.Client.Routing
import SqlAnywhere.Lib.Run

/-!
# Connections of embedded replicas

A `RemoteConnection` runs texts on a local replica or on the primary.  Its state follows what the texts
are predicted to do, and the replies of the primary.

* `runLocal` — statements on the replica, up to the first that fails
* `Replica.perform` — the calls of the connection, with the side that statements are run on
* `Replica.Right` — where a call may run its statements
* `Replica.routed` — the calls of a careful run do
-/

namespace SqlAnywhere.Client

open List Bool

/-- A statement on the replica, in a transaction or not: a read-only transaction can only be begun
outside, and ended inside, of one. -/
def localStep : Bool → StmtKind → Option Bool
  | false, .txnBeginReadOnly => some true
  | true, .txnBeginReadOnly => none
  | true, .txnEnd => some false
  | false, .txnEnd => none
  | inTxn, _ => some inTxn

/-- Statements on the replica, of which at most the first `n` succeed: whether a transaction is open
afterwards, and what was not run. -/
def runLocal : Bool → List StmtKind → ℕ → Bool × List StmtKind
  | inTxn, [], _ => (inTxn, [])
  | inTxn, kind :: stmts, 0 => (inTxn, kind :: stmts)
  | inTxn, kind :: stmts, n + 1 =>
    match localStep inTxn kind with
    | none => (inTxn, kind :: stmts)
    | some inTxn' => runLocal inTxn' stmts n

/-- A prepared statement; `metas` and parameters are left out. -/
structure Prepared where
  stmts : List StmtKind
  /-- it has a `local_statement` -/
  isLocal : Bool
  deriving DecidableEq

/-- What comes of a call outside of the connection. -/
structure Outcome where
  /-- how many statements succeed on the replica -/
  succeeds : ℕ
  /-- the `ROLLBACK` of `maybe_execute_rollback` succeeds -/
  rollsBack : Bool
  /-- the reply of the primary arrives -/
  replies : Bool
  /-- a transaction is open on the primary after the request -/
  primaryOpen : Bool

/-- A `RemoteConnection`, with its transactions on both sides. -/
structure Replica where
  state : State
  /-- there is a `writer` to send requests with -/
  writer : Bool
  prepared : List Prepared
  localOpen : Bool
  primaryOpen : Bool

inductive ReplicaAction
  | execute (stmts : List StmtKind) (o : Outcome)
  | executeBatch (stmts : List StmtKind) (o : Outcome)
  /-- whether preparing succeeds, on the replica or by a description from the primary -/
  | prepare (stmts : List StmtKind) (ok : Bool)
  | run (i : ℕ) (o : Outcome)
  /-- the primary ends a transaction by itself -/
  | primaryEnds

/-- The sides that statements were run on. -/
structure Sides where
  replica : Bool
  primary : Bool
  deriving DecidableEq

namespace Replica

def new (writer : Bool) : Replica := ⟨.init, writer, [], false, false⟩

/-- `execute_remote`: the primary replies with `Txn` or `Init`. -/
def executeRemote (r : Replica) (o : Outcome) : Replica :=
  if r.writer then
    { r with
      primaryOpen := o.primaryOpen
      state := if o.replies then (if o.primaryOpen then .txn else .init) else r.state }
  else r

/-- `execute` and `execute_batch` of a text, of which `ran` is what the replica would run. -/
def call (r : Replica) (stmts ran : List StmtKind) (o : Outcome) : Replica × Sides :=
  match route r.state stmts with
  | .refused _ state => ({ r with state }, ⟨false, false⟩)
  | .there => (r.executeRemote o, ⟨false, r.writer⟩)
  | .here state =>
    match runLocal r.localOpen ran o.succeeds with
    | (localOpen, _ :: _) => ({ r with state, localOpen }, ⟨true, false⟩)
    | (localOpen, []) =>
      -- `maybe_execute_rollback`
      if state ≠ .txnReadOnly && localOpen then
        if o.rollsBack then
          (executeRemote { r with state, localOpen := false } o, ⟨true, r.writer⟩)
        else ({ r with state, localOpen }, ⟨true, false⟩)
      else ({ r with state, localOpen }, ⟨true, false⟩)

def prepare (r : Replica) (stmts : List StmtKind) (ok : Bool) : Replica :=
  match route r.state stmts with
  | .refused _ state => { r with state }
  | .there => if ok then { r with prepared := r.prepared ++ [⟨stmts, false⟩] } else r
  | .here state =>
    if ok then { r with state, prepared := r.prepared ++ [⟨stmts, true⟩] } else { r with state }

/-- A prepared statement is run.  On the replica it is the first statement of its text. -/
def run (r : Replica) (p : Prepared) (o : Outcome) : Replica × Sides :=
  if p.isLocal then
    ({ r with localOpen := (runLocal r.localOpen (p.stmts.take 1) o.succeeds).1 }, ⟨true, false⟩)
  else (r.executeRemote o, ⟨false, r.writer⟩)

def perform (r : Replica) : ReplicaAction → Replica × Sides
  -- the local `execute` runs the first statement of a text
  | .execute stmts o => r.call stmts (stmts.take 1) o
  | .executeBatch stmts o => r.call stmts stmts o
  | .prepare stmts ok => (r.prepare stmts ok, ⟨false, false⟩)
  | .run i o => r.prepared[i]?.elim (r, ⟨false, false⟩) (r.run · o)
  | .primaryEnds => ({ r with primaryOpen := false }, ⟨false, false⟩)

def step (r : Replica) (a : ReplicaAction) : Option Replica := some (r.perform a).1

/-- **The call is right.** -/
structure Right (r : Replica) (a : ReplicaAction) : Prop where
  toPrimary : r.primaryOpen = true → (r.perform a).2.replica = false
  toReplica : r.localOpen = true → (r.perform a).2.primary = false
  init : (r.perform a).1.state = .init →
    (r.perform a).1.localOpen = false ∧ (r.perform a).1.primaryOpen = false

/-! ### What is asked of the calls -/

/-- A request whose reply is lost opens no transaction on the primary. -/
def Keeps (r : Replica) (o : Outcome) : Prop :=
  o.replies = false → o.primaryOpen = true → r.primaryOpen = true

/-- What is asked of a text: it is not refused while a transaction is open, does not go on to a
transaction on the primary from a read-only one, and no `BEGIN` or `COMMIT` of it is left out on the
replica. -/
@[mk_iff]
structure CarefulCall (r : Replica) (stmts ran : List StmtKind) (o : Outcome) : Prop where
  valid : predictFinalState r.state stmts = .invalid → r.localOpen = false ∧ r.primaryOpen = false
  stays : r.state = .txnReadOnly → predictFinalState r.state stmts ≠ .txn
  complete : ∀ state, route r.state stmts = .here state →
    ∀ kind ∈ (runLocal r.localOpen ran o.succeeds).2 ++ stmts.drop ran.length,
      kind ≠ .txnBeginReadOnly ∧ kind ≠ .txnEnd
  keeps : r.Keeps o

/-- What is asked of a call.  A text that is prepared does not begin or end a read-only transaction,
and what was prepared for one side is run while no transaction is open on the other. -/
def Careful (r : Replica) : ReplicaAction → Prop
  | .execute stmts o => r.CarefulCall stmts (stmts.take 1) o
  | .executeBatch stmts o => r.CarefulCall stmts stmts o
  | .prepare stmts _ =>
    (predictFinalState r.state stmts = .invalid → r.localOpen = false ∧ r.primaryOpen = false) ∧
      ∀ state, route r.state stmts = .here state → state = r.state
  | .run i o => ∀ p, r.prepared[i]? = some p →
    if p.isLocal then
      r.primaryOpen = false ∧ ∀ kind ∈ p.stmts.take 1, kind ≠ .txnBeginReadOnly ∧ kind ≠ .txnEnd
    else r.localOpen = false ∧ r.Keeps o
  | .primaryEnds => True

/-- A transaction that is open on a side shows in the state. -/
structure Inv (r : Replica) : Prop where
  localOpen : r.localOpen = true → r.state = .txnReadOnly
  primaryOpen : r.primaryOpen = true → r.state = .txn

end Replica

/-! ### Predictions -/

theorem State.step_invalid (kind : StmtKind) : State.invalid.step kind = .invalid := by
  cases kind <;> rfl

theorem predictFinalState_cons (state : State) (kind : StmtKind) (stmts : List StmtKind) :
    predictFinalState state (kind :: stmts) = predictFinalState (state.step kind) stmts := rfl

theorem predictFinalState_append (state : State) (stmts stmts' : List StmtKind) :
    predictFinalState state (stmts ++ stmts') =
      predictFinalState (predictFinalState state stmts) stmts' :=
  foldl_append

theorem predictFinalState_invalid (stmts : List StmtKind) :
    predictFinalState .invalid stmts = .invalid := by
  induction stmts with
  | nil => rfl
  | cons kind stmts ih => rw [predictFinalState_cons, State.step_invalid, ih]

theorem predictFinalState_reads {stmts : List StmtKind} (hread : stmts.all StmtKind.isReadOnly = true)
    (htxn : ∀ kind ∈ stmts, kind ≠ .txnBeginReadOnly ∧ kind ≠ .txnEnd) (state : State) :
    predictFinalState state stmts = state := by
  induction stmts generalizing state with
  | nil => rfl
  | cons kind stmts ih =>
    rw [all_cons, and_eq_true] at hread
    obtain ⟨hbegin, hend⟩ := htxn kind mem_cons_self
    have hkind : state.step kind = state := by
      cases kind with
      | read => cases state <;> rfl
      | txnBeginReadOnly => exact absurd rfl hbegin
      | txnEnd => exact absurd rfl hend
      | _ => exact absurd hread.1 (by decide)
    rw [predictFinalState_cons, hkind]
    exact ih hread.2 (fun kind' h' => htxn kind' (mem_cons_of_mem kind h')) state

/-- One statement on the replica does as predicted, unless what is predicted is invalid. -/
theorem localStep_predicted {inTxn inTxn' : Bool} {kind : StmtKind} {state : State}
    (h : localStep inTxn kind = some inTxn') (hread : kind.isReadOnly = true)
    (hopen : inTxn = true → state = .txnReadOnly) (hvalid : state.step kind ≠ .invalid) :
    inTxn' = true → state.step kind = .txnReadOnly := by
  intro hopen'
  subst hopen'
  cases kind with
  | read =>
    have hin : inTxn = true := by cases inTxn <;> first | rfl | cases h
    rw [hopen hin]
    rfl
  | txnBeginReadOnly => cases state <;> first | rfl | exact absurd rfl hvalid
  | txnEnd => cases inTxn <;> cases h
  | _ => cases hread

/-- **The statements that are run on the replica do as predicted.** -/
theorem runLocal_predicted {inTxn : Bool} {stmts : List StmtKind} {n : ℕ} {state : State}
    (hread : stmts.all StmtKind.isReadOnly = true) (hopen : inTxn = true → state = .txnReadOnly) :
    ∃ ran, stmts = ran ++ (runLocal inTxn stmts n).2 ∧
      (predictFinalState state ran ≠ .invalid → (runLocal inTxn stmts n).1 = true →
        predictFinalState state ran = .txnReadOnly) := by
  induction stmts generalizing inTxn n state with
  | nil => exact ⟨[], rfl, fun _ h => hopen h⟩
  | cons kind stmts ih =>
    rw [all_cons, and_eq_true] at hread
    cases n with
    | zero => exact ⟨[], rfl, fun _ h => hopen h⟩
    | succ n =>
      simp only [runLocal]
      cases hstep : localStep inTxn kind with
      | none => exact ⟨[], rfl, fun _ h => hopen h⟩
      | some inTxn' =>
        by_cases hinvalid : state.step kind = .invalid
        · -- what follows is predicted to be invalid, too
          have hopen' : inTxn' = true → State.txnReadOnly = .txnReadOnly := fun _ => rfl
          obtain ⟨ran, hran, -⟩ := ih (n := n) hread.2 hopen'
          refine ⟨kind :: ran, congrArg (kind :: ·) hran, fun hvalid => absurd ?_ hvalid⟩
          rw [predictFinalState_cons, hinvalid, predictFinalState_invalid]
        · obtain ⟨ran, hran, hpredicted⟩ :=
            ih (n := n) hread.2 (localStep_predicted hstep hread.1 hopen hinvalid)
          exact ⟨kind :: ran, congrArg (kind :: ·) hran, hpredicted⟩

namespace Replica

variable {r : Replica} {stmts ran : List StmtKind} {o : Outcome} {state : State} {a : ReplicaAction}

/-! ### One call -/

theorem route_there (h : route r.state stmts = .there) (hro : r.state = .txnReadOnly) :
    predictFinalState r.state stmts = .txn := by
  rw [hro] at h ⊢
  simp only [route] at h
  generalize predictFinalState .txnReadOnly stmts = predicted at h ⊢
  cases predicted with
  | txn => rfl
  | invalid => cases h
  | init | txnReadOnly =>
    simp only at h
    split_ifs at h

/-- A text that is refused leaves the state as it is, or was invalid. -/
theorem route_refused {e : RouteError} (h : route r.state stmts = .refused e state) :
    state = r.state ∨ (state = .init ∧ predictFinalState r.state stmts = .invalid) := by
  simp only [route] at h
  split at h
  · split_ifs at h
  · split_ifs at h
    cases h
    exact .inl rfl
  · split_ifs at h
    cases h
    exact .inl rfl
  · split_ifs at h
    cases h
    exact .inl rfl
  · rename_i hpredicted
    cases h
    exact .inr ⟨rfl, hpredicted⟩
  · cases h

theorem Inv.executeRemote (h : r.Inv) (hlocal : r.localOpen = false) (hkeeps : r.Keeps o) :
    (r.executeRemote o).Inv := by
  simp only [Replica.executeRemote]
  split
  · refine ⟨fun hopen => ?_, fun hopen => ?_⟩
    · simp [hlocal] at hopen
    · replace hopen : o.primaryOpen = true := hopen
      by_cases hreplies : o.replies = true
      · rw [if_pos hreplies, if_pos hopen]
      · rw [if_neg hreplies]
        exact h.primaryOpen (hkeeps (eq_false_of_ne_true hreplies) hopen)
  · exact h

/-- A text that is run on the replica leaves a transaction open there only if that was predicted. -/
theorem localOpen_of_here (h : r.Inv) (hroute : route r.state stmts = .here state)
    (hran : ran = stmts.take ran.length)
    (hcomplete : ∀ kind ∈ (runLocal r.localOpen ran o.succeeds).2 ++ stmts.drop ran.length,
      kind ≠ .txnBeginReadOnly ∧ kind ≠ .txnEnd)
    (hopen : (runLocal r.localOpen ran o.succeeds).1 = true) : state = .txnReadOnly := by
  obtain ⟨hread, hpredicted, -, hend⟩ := route_here hroute
  have hstmts : stmts = ran ++ stmts.drop ran.length := by
    conv_lhs => rw [← take_append_drop ran.length stmts, ← hran]
  rw [hstmts, all_append, and_eq_true] at hread
  obtain ⟨done, hdone, hdo⟩ :=
    runLocal_predicted (n := o.succeeds) hread.1 h.localOpen
  -- what is not run predicts no change
  generalize (runLocal r.localOpen ran o.succeeds).2 = rest at hdone hcomplete
  have hrest : (rest ++ stmts.drop ran.length).all StmtKind.isReadOnly = true := by
    have hran := hread.1
    rw [hdone, all_append, and_eq_true] at hran
    rw [all_append, and_eq_true]
    exact ⟨hran.2, hread.2⟩
  have hsame : predictFinalState r.state stmts = predictFinalState r.state done := by
    have hall : stmts = done ++ (rest ++ stmts.drop ran.length) := by
      rw [← append_assoc, ← hdone]
      exact hstmts
    conv_lhs => rw [hall, predictFinalState_append]
    exact predictFinalState_reads hrest hcomplete _
  have hvalid : predictFinalState r.state done ≠ .invalid := by
    rw [← hsame, ← hpredicted]
    rcases hend with hend | hend <;> rw [hend] <;> decide
  rw [hpredicted, hsame]
  exact hdo hvalid hopen

/-- What a call has done, and to which sides statements went. -/
structure Routed (r : Replica) (result : Replica × Sides) : Prop where
  inv : result.1.Inv
  toPrimary : r.primaryOpen = true → result.2.replica = false
  toReplica : r.localOpen = true → result.2.primary = false

theorem Inv.setState (h : r.Inv)
    (hstate : state = r.state ∨ (r.localOpen = false ∧ r.primaryOpen = false)) :
    Inv { r with state } := by
  rcases hstate with rfl | ⟨hlocal, hprimary⟩
  · exact h
  · refine ⟨fun hopen => ?_, fun hopen => ?_⟩
    · exact absurd (hlocal.symm.trans hopen) (by decide)
    · exact absurd (hprimary.symm.trans hopen) (by decide)

theorem Inv.primaryOpen_of_here (h : r.Inv)
    (hroute : route r.state stmts = .here state) : r.primaryOpen = false := by
  by_contra hopen
  obtain ⟨-, -, hstate, -⟩ := route_here hroute
  rw [h.primaryOpen (by simpa using hopen)] at hstate
  rcases hstate with hstate | hstate <;> cases hstate

theorem Inv.call (h : r.Inv) (hran : ran = stmts.take ran.length) (hc : r.CarefulCall stmts ran o) :
    Routed r (r.call stmts ran o) := by
  simp only [Replica.call]
  cases hroute : route r.state stmts with
  | refused e state =>
    refine ⟨h.setState ?_, fun _ => rfl, fun _ => rfl⟩
    rcases route_refused hroute with hstate | ⟨-, hinvalid⟩
    · exact .inl hstate
    · exact .inr (hc.valid hinvalid)
  | there =>
    have hlocal : r.localOpen = false := by
      by_contra hopen
      have hro := h.localOpen (by simpa using hopen)
      exact hc.stays hro (route_there hroute hro)
    refine ⟨h.executeRemote hlocal hc.keeps, fun _ => rfl, fun hopen => ?_⟩
    simp [hlocal] at hopen
  | here state =>
    have hprimary := h.primaryOpen_of_here hroute
    have hopen := localOpen_of_here h hroute hran (hc.complete state hroute)
    generalize runLocal r.localOpen ran o.succeeds = result at hopen
    obtain ⟨localOpen, rest⟩ := result
    have hinv : Inv { r with state, localOpen } :=
      ⟨hopen, fun h' => absurd (hprimary.symm.trans h') (by decide)⟩
    have hroutes : Routed r ({ r with state, localOpen }, ⟨true, false⟩) :=
      ⟨hinv, fun h' => absurd (hprimary.symm.trans h') (by decide), fun _ => rfl⟩
    cases rest with
    | cons kind rest => exact hroutes
    | nil =>
      have hno : (decide (state ≠ .txnReadOnly) && localOpen) = false := by
        cases localOpen with
        | false => exact and_false _
        | true => simp [hopen rfl]
      simp only [hno, false_eq_true, if_false]
      exact hroutes

theorem Inv.prepare (h : r.Inv) {ok : Bool}
    (hvalid : predictFinalState r.state stmts = .invalid → r.localOpen = false ∧ r.primaryOpen = false)
    (hsame : ∀ state, route r.state stmts = .here state → state = r.state) :
    (r.prepare stmts ok).Inv := by
  simp only [Replica.prepare]
  cases hroute : route r.state stmts with
  | refused e state =>
    refine h.setState ?_
    rcases route_refused hroute with hstate | ⟨-, hinvalid⟩
    · exact .inl hstate
    · exact .inr (hvalid hinvalid)
  | there =>
    cases ok with
    | true => exact ⟨h.localOpen, h.primaryOpen⟩
    | false => exact h
  | here state =>
    obtain rfl := hsame state hroute
    cases ok with
    | true => exact ⟨h.localOpen, h.primaryOpen⟩
    | false => exact h

theorem runLocal_reads {inTxn : Bool} {n : ℕ}
    (h : ∀ kind ∈ stmts, kind ≠ .txnBeginReadOnly ∧ kind ≠ .txnEnd) :
    (runLocal inTxn stmts n).1 = inTxn := by
  induction stmts generalizing n with
  | nil => rfl
  | cons kind stmts ih =>
    cases n with
    | zero => rfl
    | succ n =>
      obtain ⟨hbegin, hend⟩ := h kind mem_cons_self
      have hstep : localStep inTxn kind = some inTxn := by
        cases kind with
        | txnBeginReadOnly => exact absurd rfl hbegin
        | txnEnd => exact absurd rfl hend
        | _ => cases inTxn <;> rfl
      simp only [runLocal, hstep]
      exact ih fun kind' h' => h kind' (mem_cons_of_mem kind h')

theorem Inv.perform (h : r.Inv) (hc : r.Careful a) :
    Routed r (r.perform a) := by
  cases a with
  | execute stmts o => exact h.call (by simp) hc
  | executeBatch stmts o => exact h.call take_length.symm hc
  | prepare stmts ok => exact ⟨h.prepare hc.1 hc.2, fun _ => rfl, fun _ => rfl⟩
  | run i o =>
    simp only [Replica.perform]
    cases hp : r.prepared[i]? with
    | none => exact ⟨h, fun _ => rfl, fun _ => rfl⟩
    | some p =>
      have hcase := hc p hp
      simp only [Option.elim_some, Replica.run]
      cases hlocal : p.isLocal with
      | true =>
        simp only [hlocal, if_true] at hcase ⊢
        rw [runLocal_reads hcase.2]
        exact ⟨h, fun h' => absurd (hcase.1.symm.trans h') (by decide), fun _ => rfl⟩
      | false =>
        simp only [hlocal, false_eq_true, if_false] at hcase ⊢
        exact ⟨h.executeRemote hcase.1 hcase.2, fun _ => rfl,
          fun h' => absurd (hcase.1.symm.trans h') (by decide)⟩
  | primaryEnds =>
    exact ⟨⟨h.localOpen, fun h' => by cases h'⟩, fun _ => rfl, fun _ => rfl⟩

theorem Routed.right (h : Routed r (r.perform a)) : r.Right a := by
  refine ⟨h.toPrimary, h.toReplica, fun hinit => ⟨?_, ?_⟩⟩
  · by_contra hopen
    have hro := h.inv.localOpen (by simpa using hopen)
    simp [hinit] at hro
  · by_contra hopen
    have htxn := h.inv.primaryOpen (by simpa using hopen)
    simp [hinit] at htxn

/-- **Statements go to the side with the open transaction**, in every run of careful calls. -/
theorem routed (writer : Bool) (as : List ReplicaAction)
    (hcareful : Run.Along step Careful (new writer) as) : Run.Along step Right (new writer) as := by
  refine Run.along_imp (I := Inv) (fun r a hinv hc => (hinv.perform hc).right) ?_ ?_ hcareful
  · intro r a r' hinv hc h
    cases h
    exact (hinv.perform hc).inv
  · exact ⟨nofun, nofun⟩

/-- Everything succeeds, and no transaction is left open on the primary. -/
def fine : Outcome := ⟨1, true, true, false⟩

/-- Everything succeeds, and a transaction is open on the primary. -/
def opening : Outcome := ⟨1, true, true, true⟩

/-- A transaction on each side. -/
def twoTransactions : List ReplicaAction :=
  [.execute [.txnBeginReadOnly] fine, .execute [.read] fine, .execute [.txnEnd] fine,
    .execute [.txnBegin] opening, .execute [.write] opening, .execute [.read] opening,
    .execute [.txnEnd] fine]

theorem routed_twoTransactions :
    Run.Along step Right (new true) twoTransactions ∧
      Run.exec step (new true) twoTransactions = some (new true) := by
  refine ⟨routed true twoTransactions ?_, rfl⟩
  simp [twoTransactions, fine, opening, new, Run.Along, Careful, carefulCall_iff, Keeps, step, perform,
    call, route, predictFinalState, State.step, StmtKind.isReadOnly, runLocal, localStep, executeRemote]

/-- **Statements leave the side of the transaction**: after a `BEGIN` too many the state is `Init` and a
query is run on the replica, with the transaction open on the primary; so is a query that was prepared
before the transaction; and a text that commits a read-only transaction and begins one is run on the
primary, with the first still open on the replica. -/
theorem wrong_side : ∃ r₁ r₂ r₃,
    Run.exec step (new true) [.execute [.txnBegin] opening, .execute [.txnBegin] opening] = some r₁ ∧
      r₁.state = .init ∧ r₁.primaryOpen = true ∧
      (r₁.perform (.execute [.read] fine)).2 = ⟨true, false⟩ ∧
    Run.exec step (new true) [.prepare [.read] true, .execute [.txnBegin] opening] = some r₂ ∧
      r₂.primaryOpen = true ∧ (r₂.perform (.run 0 opening)).2 = ⟨true, false⟩ ∧
    Run.exec step (new true) [.execute [.txnBeginReadOnly] fine] = some r₃ ∧
      r₃.localOpen = true ∧
      (r₃.perform (.executeBatch [.txnEnd, .txnBegin] opening)).2 = ⟨false, true⟩ :=
  ⟨_, _, _, rfl, rfl, rfl, rfl, rfl, rfl, rfl, rfl, rfl, rfl⟩

end Replica

end SqlAnywhere.Client
