import SqlAnywhere.Merge3.Database

/-!
# A merge on a connection that is used again

`Merge3::merge` attaches the base and the branch inside its transaction.  A local connection keeps
what it has attached, through `COMMIT` and `ROLLBACK`, until it is detached at the end, which fails
while a read transaction is open on it.

* `Session`, `mergeOn` — a connection, and a merge on it with each of its early returns
* `mergeOn_restores_iff` — when a merge that is not applied leaves nothing behind
-/

namespace SqlAnywhere.Merge3

/-- A database that is attached, and whether a read transaction is open on it. -/
structure Attached where
  db : Db
  read : Bool

/-- A local connection: its database, what an open transaction has made of it, what is attached under
the two names of a merge, and how many reading statements have rows left to read. -/
structure Session where
  main : Db
  txn : Option Db
  base : Option Attached
  branch : Option Attached
  readers : Nat

inductive Failure
  | error (e : Error)
  /-- cannot start a transaction within a transaction -/
  | nested
  /-- database {alias} is already in use -/
  | inUse
  /-- cannot rollback - no transaction is active -/
  | noTransaction
  /-- a lock, a full disk, an interrupt -/
  | fault

/-- A statement of `merge_in` fails: what has been read by then, and whether SQLite rolls the whole
transaction back. -/
structure Fault where
  base : Bool
  branch : Bool
  rolledBack : Bool

/-- The files, and what goes wrong outside of them. -/
structure World where
  files : String → Option Db
  beginFails : Bool
  fault : Option Fault
  commitFails : Bool

namespace Session

variable (s : Session) (w : World)

/-- `ATTACH "{file}" AS {alias}`.  The read transaction in which the schema is read stays open with
more than one reader (`btreeEndTransaction`); the `ATTACH` is none. -/
def attachAs (file : String) : Option Attached → Except Failure Attached
  | some _ => .error .inUse
  | none => (w.files file).elim (.error (.error (.sqlite (.cannotOpen file))))
      fun db => .ok ⟨db, 1 < s.readers⟩

/-- The end of a transaction, by a `COMMIT` or `ROLLBACK` that is a reader itself. -/
@[simp] def ended : Session :=
  let ended := Option.map fun a : Attached => { a with read := a.read && 0 < s.readers }
  { s with txn := none, base := ended s.base, branch := ended s.branch }

/-- `COMMIT`, which a transaction that breaks a foreign key outlives. -/
@[simp] def commit (E : Engine) (main : Db) : Except Failure Session :=
  if w.commitFails then .error .fault
  else if E.foreignKeys main then .ok { s.ended with main := main }
  else .error (.error (.sqlite .foreignKey))

@[simp] def rollback : Except Failure Session :=
  match s.txn with
  | some _ => .ok s.ended
  | none => .error .noTransaction

/-- `DETACH` of both, whose errors are ignored: a database that is being read is locked. -/
@[simp] def detach : Session :=
  { s with base := s.base.filter (·.read), branch := s.branch.filter (·.read) }

end Session

variable (m : Merge3) (E : Engine) (w : World) (s : Session)

/-- `attach`, then `merge_in`, whose first statement reads all that is attached.  Where that fails,
what it has written is of no account: it is rolled back. -/
def inTransaction : Except Failure (Merged × Db) × Session :=
  match s.attachAs w m.base s.base with
  | .error e => (.error e, s)
  | .ok base =>
    match s.attachAs w m.branch s.branch with
    | .error e => (.error e, { s with base := some base })
    | .ok branch =>
      match w.fault with
      | some fault =>
        (.error .fault, { s with
          txn := if fault.rolledBack then none else s.txn
          base := some { base with read := base.read || fault.base }
          branch := some { branch with read := branch.read || fault.branch } })
      | none =>
        ((m.mergeIn E (attach base.db branch.db s.main)).mapError .error,
          { s with base := some { base with read := true }
                   branch := some { branch with read := true } })

/-- `Merge3::merge` on a connection.  A transaction whose `COMMIT` has failed is rolled back when it
is dropped. -/
def mergeOn : Except Failure Merged × Session :=
  if s.txn.isSome then (.error .nested, s)
  else if w.beginFails then (.error .fault, s)
  else
    match m.inTransaction E w { s with txn := some s.main } with
    | (.ok (.applied plan, main), s) =>
      match s.commit w E main with
      | .ok s => (.ok (.applied plan), s.detach)
      | .error e => (.error e, { s with txn := none })
    | (other, s) =>
      match s.rollback with
      | .ok s => (other.map (·.1), s.detach)
      | .error e => (.error e, s)

/-- `merge_in` is not rolled back, and either reaches its end and the transaction is committed, or
leaves nothing that is still being read. -/
def Closes (base branch : Db) : Prop :=
  match w.fault with
  | some fault => fault.rolledBack = false ∧
      (s.readers = 0 ∨ s.readers = 1 ∧ fault.base = false ∧ fault.branch = false)
  | none =>
    match m.mergeIn E (attach base branch s.main) with
    | .ok (.applied _, main) => w.commitFails = false ∧ E.foreignKeys main = true
    | _ => s.readers = 0

/-- **When a merge that is not applied leaves nothing behind**, of a connection on which nothing is
half read or nothing is attached.  No transaction was open; where none could begin, nothing was
attached; two readers keep a base whose branch cannot be attached; and where both can be, see
`Closes`. -/
theorem mergeOn_restores_iff (h : s.readers = 0 ∨ s.base = none ∧ s.branch = none) :
    ((∀ plan, (m.mergeOn E w s).1 ≠ .ok (.applied plan)) →
        (m.mergeOn E w s).2 = ⟨s.main, none, none, none, s.readers⟩) ↔
      s.txn = none ∧ (w.beginFails = true → s.base = none ∧ s.branch = none) ∧
        (w.beginFails = false → s.base = none → s.branch = none →
          ∀ base, w.files m.base = some base → (w.files m.branch = none → s.readers ≤ 1) ∧
            ∀ branch, w.files m.branch = some branch → m.Closes E w s base branch) := by
  obtain ⟨main, txn, base, branch, readers⟩ := s
  cases txn with
  | some db => simp [mergeOn]
  | none =>
    cases hbegin : w.beginFails with
    | true => simp [mergeOn, hbegin]
    | false =>
      simp only [mergeOn, hbegin, inTransaction, Session.attachAs] at h ⊢
      -- a file that cannot be attached is followed by `ROLLBACK` and `DETACH`
      cases base with
      | some db => simp_all [Except.map]
      | none =>
        cases hbase : w.files m.base with
        | none => cases branch <;> simp_all [Except.map]
        | some base =>
          cases branch with
          | some db => simp_all [Except.map]
          | none =>
            cases hbranch : w.files m.branch with
            | none => simp [Except.map]; grind
            | some branch =>
              cases hfault : w.fault with
              | some fault =>
                obtain ⟨readBase, readBranch, rolledBack⟩ := fault
                cases rolledBack <;> simp [Closes, hfault, Except.map]
                grind
              | none =>
                rcases hin : m.mergeIn E (attach base branch main) with e | ⟨⟨plan⟩ | ⟨plan⟩, db⟩
                · simp [Closes, hfault, hin, Except.map, Except.mapError]
                · cases hcommit : w.commitFails <;> cases hkeys : E.foreignKeys db <;>
                    simp [Closes, hfault, hin, Except.mapError, hcommit, hkeys]
                · simp [Closes, hfault, hin, Except.map, Except.mapError]

/-- `v` is `0` or references `k`. -/
def referring : Engine :=
  { plainEngine with
    foreignKeys := fun db => (db.lookup "t").all fun t => t.rows.all fun row =>
      row.val "v" = .integer 0 || t.rows.any fun parent => parent.val "k" = row.val "v" }

/-- The branch has added a row that refers to row `1`. -/
def referringWorld : World where
  files file := some (onlyT (kuvTable (kuvRow 1 1 0 :: if file = "base" then [] else [kuvRow 2 2 1])))
  beginFails := false
  fault := none
  commitFails := false

/-- One reader does not keep a base whose branch cannot be attached. -/
theorem base_detached_beside_reader :
    let s : Session := ⟨onlyT (kuvTable []), none, none, none, 1⟩
    let w := { referringWorld with
      files := fun file => if file = "base" then referringWorld.files file else none }
    ((Merge3.new "base" "branch").mergeOn referring w s).2 = s :=
  (mergeOn_restores_iff _ _ _ ⟨_, none, none, none, 1⟩ (.inr ⟨rfl, rfl⟩)).2
    ⟨rfl, nofun, fun _ _ _ _ _ => ⟨fun _ => Nat.le_refl 1, nofun⟩⟩ nofun

/-- **A `COMMIT` that is refused leaves both databases attached**: `main` has deleted row `1`, the
foreign key fails, and the next merge cannot attach its base. -/
theorem refused_commit_attached :
    let s : Session := ⟨onlyT (kuvTable []), none, none, none, 0⟩
    let left := (Merge3.new "base" "branch").mergeOn referring referringWorld s
    left.1 = .error (.error (.sqlite .foreignKey)) ∧ left.2.txn = none ∧
      left.2.base.map (·.db) = referringWorld.files "base" ∧
      left.2.branch.map (·.db) = referringWorld.files "branch" ∧
        ((Merge3.new "base" "branch").mergeOn referring referringWorld left.2).1 =
          .error .inUse :=
  ⟨rfl, rfl, rfl, rfl, rfl⟩

end SqlAnywhere.Merge3
