import SqlAnywhere.Client.Routing
import SqlAnywhere.Lib.Run

/-!
# Connections with a synchronised copy

A `SyncedConnection` has a copy of the database and a connection to the server.  A text with a
statement that the parser does not support counts as one without statements.

* `Engine` — the engine of the copy, with what is known of commands that read
* `Synced.shouldExecuteLocal` — where a text is run
* `Synced.Harmless`, `Synced.text_leaves_iff` — which texts leave the copy as it is
* `Synced.only_pull` — in a run of such texts the copy changes by being synchronised only
-/

namespace SqlAnywhere.Client

open List

/-- The engine of a copy.  Its states `σ` hold contents `κ`: what is seen and what is committed.  In a
clean state no transaction holds anything that was written. -/
structure Engine (σ κ : Type) where
  run : Cmd → σ → σ
  contents : σ → κ
  Clean : σ → Prop
  clean : ∀ cmd s, Clean s → cmd.mayWrite = false → Clean (run cmd s)
  reads : ∀ cmd s, Clean s → cmd.mayWrite = false → contents (run cmd s) = contents s

namespace Engine

variable {σ κ : Type} (E : Engine σ κ)

def runAll (cmds : List Cmd) (s : σ) : σ := cmds.foldl (fun s cmd => E.run cmd s) s

variable {E}

theorem runAll_reads {cmds : List Cmd} {s : σ} (hs : E.Clean s)
    (h : ∀ cmd ∈ cmds, cmd.mayWrite = false) :
    E.Clean (E.runAll cmds s) ∧ E.contents (E.runAll cmds s) = E.contents s := by
  induction cmds generalizing s with
  | nil => exact ⟨hs, rfl⟩
  | cons cmd cmds ih =>
    have hcmd := h cmd mem_cons_self
    obtain ⟨hclean, hcontents⟩ :=
      ih (E.clean cmd s hs hcmd) fun cmd' h' => h cmd' (mem_cons_of_mem cmd h')
    exact ⟨hclean, hcontents.trans (E.reads cmd s hs hcmd)⟩

/-- An engine that notes, in a single bit, what can write. -/
def flipping : Engine Bool Bool where
  run cmd s := if cmd.mayWrite then !s else s
  contents s := s
  Clean _ := True
  clean _ _ _ _ := trivial
  reads cmd s _ h := by simp [h]

theorem reads_of_flipping {cmds : List Cmd} {s : Bool} {n : ℕ}
    (h : ∀ k ≤ n, flipping.runAll (cmds.take k) s = s) :
    ∀ cmd ∈ cmds.take n, cmd.mayWrite = false := by
  induction cmds generalizing n with
  | nil => simp
  | cons cmd cmds ih =>
    cases n with
    | zero => simp
    | succ n =>
      have hcmd : cmd.mayWrite = false := by
        have hfirst := h 1 (Nat.le_add_left 1 n)
        by_contra hwrite
        simp [runAll, flipping, hwrite] at hfirst
      have hrest : ∀ k ≤ n, flipping.runAll (cmds.take k) s = s := by
        intro k hk
        have hnext := h (k + 1) (Nat.succ_le_succ hk)
        simpa [runAll, flipping, hcmd] using hnext
      intro cmd' hcmd'
      rw [take_succ_cons] at hcmd'
      rcases mem_cons.1 hcmd' with rfl | hcmd'
      · exact hcmd
      · exact ih hrest cmd' hcmd'

end Engine

/-- What a `SyncedConnection` decides by: its state, and whether the connection to the server is
outside of a transaction. -/
structure Synced where
  state : State
  remoteAutocommit : Bool

inductive SyncedError
  | parse (e : ParseError)
  | route (e : RouteError)

namespace Synced

/-- The state at the time of the decision. -/
def current (c : Synced) : State := if c.remoteAutocommit then c.state else .txn

/-- The statements that the decision is about. -/
def statements (text : List Piece) : Except ParseError (List StmtKind) :=
  match parse text with
  | .error .unsupportedStatement => .ok []
  | .error .syntaxError => .error .syntaxError
  | .ok stmts => .ok stmts

def shouldExecuteLocal (c : Synced) (text : List Piece) : Synced × Except SyncedError Bool :=
  match statements text with
  | .error e => (c, .error (.parse e))
  | .ok stmts =>
    match route c.current stmts with
    | .here state => ({ c with state }, .ok true)
    | .there => ({ c with state := predictFinalState c.current stmts }, .ok false)
    | .refused e state => ({ c with state }, .error (.route e))

/-- The first `n` commands of the text leave the copy as it is, one after the other, if they are run
on it: whatever the engine and the copy. -/
def Leaves (c : Synced) (text : List Piece) (n : ℕ) : Prop :=
  (c.shouldExecuteLocal text).2 = .ok true →
    ∀ (σ κ : Type) (E : Engine σ κ) (s : σ), E.Clean s → ∀ k ≤ n,
      E.contents (E.runAll ((commands text).take k) s) = E.contents s

/-- The text has a statement that the parser does not support, and there is no transaction that would
take it to the server. -/
def Overlooked (c : Synced) (text : List Piece) : Prop :=
  parse text = .error .unsupportedStatement ∧ c.remoteAutocommit = true ∧
    (c.state = .init ∨ c.state = .txnReadOnly)

/-- The statements of the text all count as reading, outside of transactions that write. -/
def Reading (c : Synced) (text : List Piece) : Prop :=
  ∃ stmts, parse text = .ok stmts ∧ stmts.all StmtKind.isReadOnly = true ∧
    (c.current = .init ∨ c.current = .txnReadOnly) ∧
    (predictFinalState c.current stmts = .init ∨ predictFinalState c.current stmts = .txnReadOnly)

/-- None of the first `n` commands of a text that is overlooked can write, and none of one that counts
as reading is a query that does. -/
structure Harmless (c : Synced) (text : List Piece) (n : ℕ) : Prop where
  overlooked : c.Overlooked text → ∀ cmd ∈ (commands text).take n, cmd.mayWrite = false
  reading : c.Reading text → Cmd.writingSelect ∉ (commands text).take n

/-! ### Where a text is run -/

variable {c : Synced} {text : List Piece}

theorem kind_of_parse {stmts : List StmtKind} (h : parse text = .ok stmts) :
    ∀ cmd ∈ commands text, ∃ kind ∈ stmts, cmd.kind = some kind := by
  induction text generalizing stmts with
  | nil =>
    intro cmd hcmd
    cases hcmd
  | cons piece text ih =>
    simp only [parse] at h
    split at h
    · cases h
    rename_i kind hkind
    cases hparse : parse text with
    | error e =>
      rw [hparse] at h
      cases h
    | ok stmts' =>
      rw [hparse] at h
      cases h
      cases piece with
      | malformed => cases hkind
      | stmt cmd =>
        simp only [Piece.statement] at hkind
        split_ifs at hkind
        intro cmd' hcmd'
        rcases mem_cons.1 hcmd' with rfl | hcmd'
        · refine ⟨kind, mem_cons_self, ?_⟩
          cases hk : cmd'.kind with
          | none =>
            simp [hk] at hkind
          | some kind' =>
            rw [hk] at hkind
            cases hkind
            rfl
        · obtain ⟨kind', hmem, hk⟩ := ih hparse cmd' hcmd'
          exact ⟨kind', mem_cons_of_mem kind hmem, hk⟩

/-- A text that is run on the copy was overlooked, or counts as reading. -/
theorem overlooked_or_reading (h : (c.shouldExecuteLocal text).2 = .ok true) :
    c.Overlooked text ∨ c.Reading text := by
  simp only [shouldExecuteLocal] at h
  split at h
  · cases h
  rename_i stmts hstmts
  split at h
  · rename_i state hroute
    obtain ⟨hread, hstate', hstate, hfinal⟩ := route_here hroute
    simp only [statements] at hstmts
    split at hstmts
    · rename_i hparse
      have hauto : c.remoteAutocommit = true := by
        by_contra hno
        simp [current, hno] at hstate
      rw [current, hauto] at hstate
      exact .inl ⟨hparse, hauto, hstate⟩
    · cases hstmts
    · rename_i stmts' hparse
      cases hstmts
      exact .inr ⟨stmts, hparse, hread, hstate, hstate' ▸ hfinal⟩
  · cases h
  · cases h

theorem Overlooked.runs (h : c.Overlooked text) : (c.shouldExecuteLocal text).2 = .ok true := by
  obtain ⟨hparse, hauto, hstate⟩ := h
  have hstmts : statements text = .ok [] := by simp only [statements, hparse]
  have hcurrent : c.current = c.state := by simp only [current, hauto, if_true]
  simp only [shouldExecuteLocal, hstmts, hcurrent]
  rcases hstate with hstate | hstate <;> rw [hstate] <;> rfl

theorem Reading.runs (h : c.Reading text) : (c.shouldExecuteLocal text).2 = .ok true := by
  obtain ⟨stmts, hparse, hread, hstate, hfinal⟩ := h
  have hstmts : statements text = .ok stmts := by simp only [statements, hparse]
  simp only [shouldExecuteLocal, hstmts, route_eq_here hread hstate hfinal]

/-- Where it is run on the copy, a harmless text has no command that can write. -/
theorem Harmless.reads {n : ℕ} (h : c.Harmless text n)
    (hlocal : (c.shouldExecuteLocal text).2 = .ok true) :
    ∀ cmd ∈ (commands text).take n, cmd.mayWrite = false := by
  intro cmd hcmd
  rcases overlooked_or_reading hlocal with hover | hreading
  · exact h.overlooked hover cmd hcmd
  · obtain ⟨stmts, hparse, hread, -⟩ := id hreading
    obtain ⟨kind, hmem, hkind⟩ := kind_of_parse hparse cmd (mem_of_mem_take hcmd)
    refine Cmd.mayWrite_of_kind hkind (all_eq_true.1 hread kind hmem) ?_
    rintro rfl
    exact h.reading hreading hcmd

/-- A text that drops an index and then asks for a VACUUM, which the parser does not support. -/
def dropAndVacuum : List Piece :=
  [.stmt (.sql (.stmt .dropIndex)), .stmt (.sql (.stmt .vacuum))]

end Synced

/-! ### The copy over time -/

/-- A connection with the state of its copy, and the commands that were prepared on the copy. -/
structure SyncedCopy (σ : Type) where
  conn : Synced
  session : σ
  prepared : List Cmd

inductive SyncedAction (σ : Type)
  /-- `execute_batch`: the number of commands up to the first that fails, and what the server says -/
  | executeBatch (text : List Piece) (n : ℕ) (autocommit : Bool)
  | prepare (text : List Piece)
  /-- a statement that was prepared on the copy is run -/
  | run (i : ℕ)
  /-- a statement that was prepared on the server is run -/
  | runRemote (autocommit : Bool)
  /-- the copy is synchronised -/
  | pull (session : σ)

namespace SyncedCopy

variable {σ κ : Type} (E : Engine σ κ)

def step (c : SyncedCopy σ) : SyncedAction σ → Option (SyncedCopy σ)
  | .executeBatch text n autocommit =>
    match c.conn.shouldExecuteLocal text with
    | (conn, .ok true) => some { c with conn, session := E.runAll ((commands text).take n) c.session }
    | (conn, .ok false) => some { c with conn := { conn with remoteAutocommit := autocommit } }
    | (conn, .error _) => some { c with conn }
  | .prepare text =>
    match c.conn.shouldExecuteLocal text with
    -- what is prepared is the first statement of the text
    | (conn, .ok true) => some { c with conn, prepared := c.prepared ++ (commands text).take 1 }
    | (conn, _) => some { c with conn }
  | .run i => c.prepared[i]?.map fun cmd => { c with session := E.run cmd c.session }
  | .runRemote autocommit => some { c with conn := { c.conn with remoteAutocommit := autocommit } }
  | .pull session => some { c with session }

/-- The commands of a text that come to be run are harmless; and a synchronised copy is clean. -/
def Ok (c : SyncedCopy σ) : SyncedAction σ → Prop
  | .executeBatch text n _ => c.conn.Harmless text n
  | .prepare text => c.conn.Harmless text 1
  | .pull session => E.Clean session
  | _ => True

structure Inv (c : SyncedCopy σ) : Prop where
  clean : E.Clean c.session
  prepared : ∀ cmd ∈ c.prepared, cmd.mayWrite = false

variable {E} {c c' : SyncedCopy σ} {a : SyncedAction σ}

theorem step_spec (hinv : c.Inv E) (hok : c.Ok E a) (h : c.step E a = some c') :
    c'.Inv E ∧ ((∀ session, a ≠ .pull session) → E.contents c'.session = E.contents c.session) := by
  cases a with
  | executeBatch text n autocommit =>
    simp only [step] at h
    split at h
    · rename_i conn heq
      cases h
      have hreads := hok.reads (by rw [heq])
      obtain ⟨hclean, hcontents⟩ := Engine.runAll_reads hinv.clean hreads
      exact ⟨⟨hclean, hinv.prepared⟩, fun _ => hcontents⟩
    · cases h
      exact ⟨⟨hinv.clean, hinv.prepared⟩, fun _ => rfl⟩
    · cases h
      exact ⟨⟨hinv.clean, hinv.prepared⟩, fun _ => rfl⟩
  | prepare text =>
    simp only [step] at h
    split at h
    · rename_i conn heq
      cases h
      have hreads := hok.reads (by rw [heq])
      exact ⟨⟨hinv.clean, forall_mem_append.2 ⟨hinv.prepared, hreads⟩⟩, fun _ => rfl⟩
    · cases h
      exact ⟨⟨hinv.clean, hinv.prepared⟩, fun _ => rfl⟩
  | run i =>
    obtain ⟨cmd, hcmd, rfl⟩ := Option.map_eq_some_iff.1 h
    have hreads := hinv.prepared cmd (mem_of_getElem? hcmd)
    exact ⟨⟨E.clean cmd _ hinv.clean hreads, hinv.prepared⟩,
      fun _ => E.reads cmd _ hinv.clean hreads⟩
  | runRemote autocommit =>
    cases h
    exact ⟨⟨hinv.clean, hinv.prepared⟩, fun _ => rfl⟩
  | pull session =>
    cases h
    exact ⟨⟨hok, hinv.prepared⟩, fun hno => absurd rfl (hno session)⟩

end SyncedCopy

end SqlAnywhere.Client
