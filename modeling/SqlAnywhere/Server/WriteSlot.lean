import Mathlib.Data.List.Basic
import SqlAnywhere.Lib.Run

/-!
# The write slot

The connections to one database share a `ConnectionManager`, which lets one of them at a time write
or checkpoint: the owner of the slot.  The others wait in a queue and are handed the slot in turn.
A step of the system is one of the sections that the code runs under one of its locks, or one
operation on an atomic.

* `Manager.step` — one step of one connection
* `Call` — where a connection stands in the calls that SQLite makes on its WAL
* `Panic` — the assertions of the code

SQLite calls the WAL of a connection from one thread at a time.  It begins a write only where no
write is open, ends one that is, and checkpoints no database in a transaction; attached databases
are opened read-only, so their WALs share the connection's `id` but never ask for the slot.  A panic
in one of these calls, which cross an `extern "C"` boundary, is the end of the process.
-/

namespace SqlAnywhere.Server

abbrev ConnId := ℕ

inductive SlotType
  | writeTxn
  | checkpoint
  deriving DecidableEq

inductive SlotState
  | notified
  | acquiring
  | acquired (type : SlotType)
  | failure
  deriving DecidableEq

structure Slot where
  id : ConnId
  startedAt : ℕ
  state : SlotState
  deriving DecidableEq

/-- A connection waiting in the write queue.  Its unparker and its `live` flag are those of the call
of `acquire` that queued it, and the call is known by a number. -/
structure Waiter where
  id : ConnId
  call : ℕ
  deriving DecidableEq

/-- A call of `acquire`: what the slot is for, and its local variables. -/
structure Acquire where
  type : SlotType
  call : ℕ
  syncToken : ℕ
  enqueued : Bool
  deriving DecidableEq

/-- Where a checkpoint stands, from when the slot is marked. -/
inductive Checkpoint
  | marked
  /-- `sync_token` is incremented. -/
  | synced
  /-- So many of the queued waiters are still to be drained. -/
  | draining (n : ℕ)
  /-- A waiter is taken off the queue and not yet unparked. -/
  | unparking (waiter : Waiter) (n : ℕ)
  /-- The inner WAL checkpoints. -/
  | running

/-- Where a connection stands in the calls on its WAL. -/
inductive Call
  | idle
  /-- `acquire` is called and has not read `sync_token` yet. -/
  | entering (type : SlotType)
  /-- About to lock the slot. -/
  | looping (a : Acquire)
  | parked (a : Acquire) (deadline : Option ℕ)
  /-- The slot of `target` has timed out, and its abort handle is to be looked up. -/
  | aborting (a : Acquire) (target : ConnId)
  /-- The handle is to be called. -/
  | upgrading (a : Acquire) (target : ConnId)
  /-- The handle holds the connection and is to roll it back. -/
  | rollingBack (a : Acquire) (target : ConnId)
  /-- `acquire` has returned. -/
  | acquired (type : SlotType)
  | checkpointing (at_ : Checkpoint)
  /-- `end_read_txn` has found that it is to release the slot. -/
  | releasing

/-- The call of `acquire` that a connection is waiting in. -/
def Call.waiting : Call → Option Acquire
  | .looping a | .parked a _ | .aborting a _ | .upgrading a _ | .rollingBack a _ => some a
  | _ => none

/-- Whether the connection itself is there. -/
inductive Life
  | unborn
  | held
  /-- Its last reference is gone and SQLite closes it. -/
  | dropped
  | closed
  deriving DecidableEq

structure Conn where
  call : Call
  life : Life
  /-- A write transaction is open on the WAL. -/
  writing : Bool
  holdsSlot : Bool
  forcedRollback : Bool
  /-- WALs of attached databases. -/
  attached : ℕ

/-- The assertions, by where they stand. -/
inductive Panic
  /-- The slot is ours in `acquire`, and neither notified nor failed. -/
  | acquireState
  /-- No slot to release. -/
  | releaseNone
  /-- The slot released is not ours. -/
  | releaseOther
  /-- No slot to mark after `acquire`. -/
  | markNone
  /-- No waiter to drain. -/
  | drainEmpty
  /-- No abort handle for the owner of the slot. -/
  | handleNone
  /-- The owner of the slot is gone. -/
  | ownerGone
  deriving DecidableEq

/-- `ConnectionManagerInner`, its connections, the clock and the panic that ended the process. -/
structure Manager where
  current : Option Slot
  abortHandle : ConnId → Bool
  writeQueue : List Waiter
  syncToken : ℕ
  nextConnId : ConnId
  conns : ConnId → Conn
  /-- The `live` flags and the parkers' tokens of the calls of `acquire`. -/
  live : ℕ → Bool
  unparked : ℕ → Bool
  nextCall : ℕ
  now : ℕ
  panic : Option Panic

/-- The durations that a manager is made with. -/
structure Timeouts where
  txnTimeout : ℕ
  acquireTimeout : ℕ

namespace Manager

/-- The assertion `p` fails, which ends the process. -/
def fail (m : Manager) (p : Panic) : Manager := { m with panic := some p }

def setConn (m : Manager) (c : ConnId) (conn : Conn) : Manager :=
  { m with conns := Function.update m.conns c conn }

def setCall (m : Manager) (c : ConnId) (call : Call) : Manager :=
  m.setConn c { m.conns c with call := call }

/-- `schedule_next`: waiters that gave up are skipped, and the next one is notified. -/
def scheduleNext (m : Manager) : Manager × Option ConnId :=
  match m.writeQueue.dropWhile (fun w => !m.live w.call) with
  | [] => ({ m with writeQueue := [] }, none)
  | w :: rest =>
    ({ m with
        writeQueue := rest, current := some ⟨w.id, m.now, .notified⟩,
        unparked := Function.update m.unparked w.call true },
      some w.id)

/-- `release`, called by the connection `c`. -/
def release (m : Manager) (c : ConnId) : Manager :=
  match m.current with
  | none => m.fail .releaseNone
  | some slot =>
    if slot.id = c then ({ m with current := none } : Manager).scheduleNext.1
    else m.fail .releaseOther

/-- The state of the slot is set, which must be taken. -/
def mark (m : Manager) (state : SlotState) : Manager :=
  match m.current with
  | none => m.fail .markNone
  | some slot => { m with current := some { slot with state := state } }

/-- `give_up`: the entry of the queue is dead from now on, and a slot that it was notified for is
passed on. -/
def giveUp (m : Manager) (c : ConnId) (a : Acquire) : Manager :=
  let m : Manager := { m with live := Function.update m.live a.call false }
  match m.current with
  | some ⟨id, _, .notified⟩ =>
    if id = c then ({ m with current := none } : Manager).scheduleNext.1 else m
  | _ => m

/-- Another connection holds the slot for a checkpoint. -/
def checkpointed (m : Manager) (c : ConnId) : Bool :=
  match m.current with
  | some ⟨id, _, .acquired .checkpoint⟩ => id ≠ c
  | _ => false

/-- The slot is another connection's: wait, or take it over. -/
def waitFor (T : Timeouts) (m : Manager) (c : ConnId) (a : Acquire) (slot : Slot) : Manager :=
  match slot.state with
  | .acquired _ =>
    if slot.startedAt + T.txnTimeout ≤ m.now then m.setCall c (.aborting a slot.id)
    else m.setCall c (.parked a (some (slot.startedAt + T.txnTimeout)))
  | .acquiring | .notified => m.setCall c (.parked a (some (slot.startedAt + T.txnTimeout)))
  | .failure =>
    if slot.startedAt + T.acquireTimeout ≤ m.now then
      match m.scheduleNext with
      | (m, some id) =>
        if id = c then (m.mark .acquiring).setCall c (.acquired a.type)
        else m.setCall c (.parked a none)
      | (m, none) =>
        ({ m with current := some ⟨c, m.now, .acquiring⟩ } : Manager).setCall c (.acquired a.type)
    else m.setCall c (.parked a (some (slot.startedAt + T.acquireTimeout)))

/-- The slot is free: it goes to the first in the queue. -/
def takeFree (m : Manager) (c : ConnId) (a : Acquire) : Manager :=
  match m.scheduleNext with
  | (m, some id) =>
    if id = c then (m.mark .acquiring).setCall c (.acquired a.type)
    else m.setCall c (.parked a none)
  | (m, none) =>
    -- there is no `break` here: the loop goes on with the slot already marked
    ({ m with current := some ⟨c, m.now, .acquiring⟩ } : Manager).setCall c (.looping a)

/-- The connection queues up, unless it has or the slot is its own. -/
def enqueue (m : Manager) (c : ConnId) (a : Acquire) : Manager × Acquire :=
  if m.current.all (fun slot => slot.id ≠ c) && !a.enqueued then
    (({ m with writeQueue := m.writeQueue ++ [⟨c, a.call⟩] } : Manager).setCall c
        (.looping { a with enqueued := true }),
      { a with enqueued := true })
  else (m, a)

/-- What `acquire` does with the slot once it has queued up. -/
def claim (T : Timeouts) (m : Manager) (c : ConnId) (a : Acquire) : Manager :=
  match m.current with
  | some slot =>
    if slot.id = c then
      match slot.state with
      | .notified | .failure => (m.mark .acquiring).setCall c (.acquired a.type)
      | .acquiring | .acquired _ => m.fail .acquireState
    else m.waitFor T c a slot
  | none => m.takeFree c a

/-- One turn of the loop of `acquire`, from where it locks the slot. -/
def turn (T : Timeouts) (m : Manager) (c : ConnId) (a : Acquire) : Manager :=
  if m.syncToken ≠ a.syncToken || m.checkpointed c then (m.giveUp c a).setCall c .idle
  else (m.enqueue c a).1.claim T c (m.enqueue c a).2

/-- The write transaction of `c` ends: `end_write_txn`. -/
def endWrite (m : Manager) (c : ConnId) : Manager :=
  (m.setConn c { m.conns c with writing := false, holdsSlot := false }).release c

/-- `force_rollback` of the connection `c`. -/
def forceRollback (m : Manager) (c : ConnId) : Manager :=
  if (m.conns c).forcedRollback then m
  else
    let m := if (m.conns c).writing then m.endWrite c else m
    m.setConn c { m.conns c with forcedRollback := true }

end Manager

/-- How the inner WAL answers `begin_write_txn`. -/
inductive Begun
  | ok
  | busy
  | error

/-- The steps that the connection `c` takes, and those of the clock and of new connections. -/
inductive SlotStep
  | tick
  | open_
  | register (c : ConnId)
  | attach (c : ConnId)
  /-- An attached database is detached, which closes its WAL. -/
  | detach (c : ConnId)
  /-- A program starts on the connection and notices that it was rolled back. -/
  | noticeRollback (c : ConnId)
  | acquire (c : ConnId) (type : SlotType)
  | readToken (c : ConnId)
  | turn (c : ConnId)
  | wake (c : ConnId)
  | lookUp (c : ConnId)
  | upgrade (c : ConnId)
  | rollBack (c : ConnId)
  | beginWrite (c : ConnId) (result : Begun)
  | markCheckpoint (c : ConnId)
  /-- The mode of the checkpoint is `Restart` or above, or not. -/
  | sync (c : ConnId) (restart : Bool)
  | drain (c : ConnId)
  | steal (c : ConnId)
  | unpark (c : ConnId)
  | finish (c : ConnId)
  | endWrite (c : ConnId)
  | endRead (c : ConnId)
  | release (c : ConnId)
  | drop (c : ConnId)
  | close (c : ConnId)

/-- The handle of an abort holds the connection. -/
def Call.rollsBack (c : ConnId) : Call → Bool
  | .rollingBack _ target => target = c
  | _ => false

/-- The connection can make a call on its WAL. -/
def Conn.ready (conn : Conn) : Bool :=
  match conn.call, conn.life with
  | .idle, .held | .idle, .dropped => true
  | _, _ => false

namespace Manager

/-- One step, `none` where it is not possible. -/
def next (T : Timeouts) (m : Manager) : SlotStep → Option Manager
  | .tick => some { m with now := m.now + 1 }
  | .open_ => some
    { m with
      nextConnId := m.nextConnId + 1,
      conns := Function.update m.conns m.nextConnId ⟨.idle, .held, false, false, false, 0⟩ }
  | .register c =>
    if (m.conns c).ready then some { m with abortHandle := Function.update m.abortHandle c true }
    else none
  | .attach c =>
    if (m.conns c).ready then
      some (m.setConn c { m.conns c with attached := (m.conns c).attached + 1 })
    else none
  | .detach c =>
    if (m.conns c).ready && (m.conns c).attached ≠ 0 then
      -- the WAL of an attached database closes like any other, under the connection's id
      some ({ m with abortHandle := Function.update m.abortHandle c false } |>.setConn c
        { m.conns c with attached := (m.conns c).attached - 1 })
    else none
  | .noticeRollback c =>
    if (m.conns c).ready then some (m.setConn c { m.conns c with forcedRollback := false })
    else none
  | .acquire c type =>
    if (m.conns c).ready && (m.conns c).life = .held && !(m.conns c).writing then
      some (m.setCall c (.entering type))
    else none
  | .readToken c =>
    match (m.conns c).call with
    | .entering type => some
      ({ m with
          live := Function.update m.live m.nextCall true,
          unparked := Function.update m.unparked m.nextCall false,
          nextCall := m.nextCall + 1 } |>.setCall c
        (.looping ⟨type, m.nextCall, m.syncToken, false⟩))
    | _ => none
  | .turn c =>
    match (m.conns c).call with
    | .looping a => some (m.turn T c a)
    | _ => none
  | .wake c =>
    match (m.conns c).call with
    | .parked a deadline =>
      if m.unparked a.call || deadline.any (· ≤ m.now) then
        some ({ m with unparked := Function.update m.unparked a.call false } |>.setCall c
          (.looping a))
      else none
    | _ => none
  | .lookUp c =>
    match (m.conns c).call with
    | .aborting a target =>
      if m.abortHandle target then some (m.setCall c (.upgrading a target))
      else some (m.fail .handleNone)
    | _ => none
  | .upgrade c =>
    match (m.conns c).call with
    | .upgrading a target =>
      if (m.conns target).life = .held then some (m.setCall c (.rollingBack a target))
      else some (m.fail .ownerGone)
    | _ => none
  | .rollBack c =>
    match (m.conns c).call with
    | .rollingBack a target =>
      if (m.conns target).ready then some ((m.forceRollback target).setCall c (.parked a none))
      else none
    | _ => none
  | .beginWrite c result =>
    match (m.conns c).call with
    | .acquired .writeTxn =>
      match result with
      | .ok => some ((m.mark (.acquired .writeTxn)).setConn c
          { m.conns c with call := .idle, writing := true, holdsSlot := true })
      | .busy => some ((m.mark .failure).setConn c { m.conns c with call := .idle, holdsSlot := true })
      | .error => some ((m.setConn c { m.conns c with call := .idle, holdsSlot := false }).release c)
    | _ => none
  | .markCheckpoint c =>
    match (m.conns c).call with
    | .acquired .checkpoint =>
      some ((m.mark (.acquired .checkpoint)).setCall c (.checkpointing .marked))
    | _ => none
  | .sync c restart =>
    match (m.conns c).call with
    | .checkpointing .marked =>
      if restart then
        some ({ m with syncToken := m.syncToken + 1 } |>.setCall c (.checkpointing .synced))
      else some (m.setCall c (.checkpointing .running))
    | _ => none
  | .drain c =>
    match (m.conns c).call with
    | .checkpointing .synced =>
      some (m.setCall c (.checkpointing (.draining m.writeQueue.length)))
    | _ => none
  | .steal c =>
    match (m.conns c).call with
    | .checkpointing (.draining 0) => some (m.setCall c (.checkpointing .running))
    | .checkpointing (.draining (n + 1)) =>
      match m.writeQueue with
      | [] => some (m.fail .drainEmpty)
      | w :: rest =>
        some ({ m with writeQueue := rest } |>.setCall c (.checkpointing (.unparking w n)))
    | _ => none
  | .unpark c =>
    match (m.conns c).call with
    | .checkpointing (.unparking w n) =>
      some ({ m with unparked := Function.update m.unparked w.call true } |>.setCall c
        (.checkpointing (.draining n)))
    | _ => none
  | .finish c =>
    match (m.conns c).call with
    | .checkpointing .running => some ((m.setCall c .idle).release c)
    | _ => none
  | .endWrite c =>
    if (m.conns c).ready && (m.conns c).writing then some (m.endWrite c) else none
  | .endRead c =>
    if (m.conns c).ready then
      -- the inner WAL ends the write with the read
      match m.current, (m.conns c).holdsSlot with
      | some ⟨id, _, .acquired _⟩, true =>
        if id = c then some (m.setConn c { m.conns c with call := .releasing, writing := false })
        else some (m.setConn c { m.conns c with writing := false })
      | _, _ => some (m.setConn c { m.conns c with writing := false })
    else none
  | .release c =>
    match (m.conns c).call with
    | .releasing =>
      some ((m.setConn c { m.conns c with call := .idle, holdsSlot := false }).release c)
    | _ => none
  | .drop c =>
    if (m.conns c).ready && (m.conns c).life = .held &&
        (List.range m.nextConnId).all (fun d => !(m.conns d).call.rollsBack c) then
      some (m.setConn c { m.conns c with life := .dropped })
    else none
  | .close c =>
    -- the wrapper that closes a WAL is a clone of the one it was opened with, which never holds
    -- the slot, so nothing is released here
    if (m.conns c).ready && (m.conns c).life = .dropped && !(m.conns c).writing then
      some ({ m with abortHandle := Function.update m.abortHandle c false } |>.setConn c
        { m.conns c with life := .closed })
    else none

/-- One step of a process that has not panicked. -/
def step (T : Timeouts) (m : Manager) (e : SlotStep) : Option Manager :=
  if m.panic.isSome then none else m.next T e

/-- A new manager. -/
def new : Manager where
  current := none
  abortHandle _ := false
  writeQueue := []
  syncToken := 0
  nextConnId := 0
  conns _ := ⟨.idle, .unborn, false, false, false, 0⟩
  live _ := false
  unparked _ := false
  nextCall := 0
  now := 0
  panic := none

end Manager

end SqlAnywhere.Server
