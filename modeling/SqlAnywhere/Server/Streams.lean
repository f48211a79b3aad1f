import Mathlib.Data.Int.Notation
import SqlAnywhere.Lib.Run
import SqlAnywhere.Server.Auth

/-!
# Stored connections: Hrana streams over HTTP and clients of the gRPC proxy

A request that opens a stream gets a baton, with which a later request acquires the stream and its
connection again; a call of the proxy names a client id, under which the connection of its first
call is stored.  Statements are authorised for the namespace of the request that runs them; but what
a replica sends to its primary is authorised for the request that the connection to the primary was
opened by.

* `State.next` — the steps of the requests, each under the lock it is taken under
* `ownClient` — stored connections are named only by the client and for the namespace they are of
* `statements_authorised` — then every statement was authorised for the databases it runs on
* `baton_of_another_namespace` — and otherwise not
-/

namespace SqlAnywhere.Server.Streams

open Option

inductive Version
  | hrana1
  | hrana2
  | hrana3
  deriving DecidableEq

def Version.number : Version → ℕ
  | .hrana1 => 1
  | .hrana2 => 2
  | .hrana3 => 3

/-- The protocol errors of a stream, each of which closes it. -/
inductive ProtocolError
  | noneStreamRequest
  | batonInvalid
  | batonReused
  | batonStreamClosed
  | sqlIdAndSqlGiven
  | sqlIdOrSqlNotGiven
  | sqlNotFound (sqlId : ℤ)
  | sqlExists (sqlId : ℤ)
  | notSupported (what : String) (minVersion : Version)

/-- Errors that are reported as the result of one request of a pipeline. -/
inductive StreamResponseError
  | sqlTooMany (count : ℕ)
  | sqlTooLarge (size : ℕ)
  | stmt
  | batch

inductive Failure
  | protocol (e : ProtocolError)
  | response (e : StreamResponseError)
  | expired
  | forbidden (e : Forbidden)
  | other

/-- A connection, with the request that it was made for, and whether it is one of a replica, which
sends programs to the primary.  Connections are numbered as they are made. -/
structure Connection where
  id : ℕ
  opener : RequestContext
  replica : Bool
  deriving DecidableEq

/-- The namespace whose connection maker made it. -/
def Connection.ns (conn : Connection) : NamespaceName := conn.opener.ns

/-- What runs on a connection. -/
inductive Job
  | program (kinds : List StmtKind)
  | describe (sql : String)

/-- `Stream`, the state that is kept between the requests. -/
structure Stream where
  db : Option Connection
  sqls : List (ℤ × String)
  streamId : UInt64
  batonSeq : UInt64

inductive Handle
  | available (stream : Stream)
  | acquired
  | expired

/-- A baton that the server issued, or one that does not decode or has a wrong code. -/
inductive Baton
  | issued (streamId batonSeq : UInt64)
  | forged

/-- `StreamRequest`; executing a statement, a batch and a sequence differ in how the program is
made. -/
inductive StreamRequest (B : Type)
  | none
  | close
  | run (batch : B)
  | describe (sql : Option String) (sqlId : Option ℤ)
  | storeSql (sqlId : ℤ) (sql : String)
  | closeSql (sqlId : ℤ)
  | getAutocommit

/-- What is left of a request to one of the two endpoints. -/
inductive Body (B : Type)
  | pipeline (requests : List (StreamRequest B))
  | cursor (batch : B)

/-- An HTTP request that holds a stream. -/
structure Request (B : Type) where
  ctx : RequestContext
  version : Version
  body : Body B
  stream : Stream

/-- A job with the connection it is about to run on, and the context of its request. -/
structure Open where
  conn : Connection
  ctx : RequestContext
  job : Job

/-- Where a connection of a replica runs a program: on its copy, at the primary, or on its copy
first and then, as that has left a transaction open, at the primary. -/
inductive Place
  | here
  | there
  | both

structure State (B : Type) where
  handles : UInt64 → Option Handle
  requests : ℕ → Option (Request B)
  /-- Tasks of cursors. -/
  cursors : ℕ → Option Open
  clients : ℕ → Option Connection
  /-- Calls of the proxy that have their connection. -/
  calls : ℕ → Option Open
  config : NamespaceName → AuthConfig
  /-- The number of connections made so far. -/
  made : ℕ
  /-- `remote_conn`: for whom the connection to the primary was opened. -/
  remote : Connection → Option RequestContext
  /-- The databases that were attached on a connection. -/
  attached : Connection → List NamespaceName
  /-- What was prepared or executed, with the connection it ran on and what was attached there. -/
  log : List (Open × List NamespaceName)

/-- How requests turn into programs, given the SQL texts that the stream stores. -/
abbrev ToProgram (B : Type) := Version → List (ℤ × String) → B → Except Failure (List StmtKind)

def maxSqlCount : ℕ := 50

def maxStoredSqlSize : ℕ := 5000

def protoSqlToSql (sql : Option String) (sqlId : Option ℤ) (sqls : List (ℤ × String))
    (version : Version) : Except ProtocolError String :=
  if sqlId.isSome && version.number < Version.hrana2.number then
    .error (.notSupported "`sql_id`" .hrana2)
  else
    match sql, sqlId with
    | some sql, none => .ok sql
    | none, some sqlId =>
      match sqls.lookup sqlId with
      | some sql => .ok sql
      | none => .error (.sqlNotFound sqlId)
    | some _, some _ => .error .sqlIdAndSqlGiven
    | none, none => .error .sqlIdOrSqlNotGiven

def Job.check (gid : Option String) (store : NamespaceName → AuthConfig) (ctx : RequestContext)
    (config : AuthConfig) : Job → Except Forbidden Unit
  | .program kinds => checkProgramAuth gid store ctx kinds config
  | .describe _ => checkDescribeAuth gid ctx

/-- The databases that a job attaches. -/
def Job.attaches : Job → List NamespaceName
  | .program kinds => kinds.filterMap fun kind => match kind with | .attach ns => some ns | _ => none
  | .describe _ => []

section

variable {B : Type} (gid : Option String) (toProgram : ToProgram B)

namespace State

/-- A job runs once it is authorised for `ctx`, with the result `ran`. -/
def runFor (s : State B) (ctx : RequestContext) (o : Open) (ran : Except Failure Unit) :
    State B × Except Failure Unit :=
  match o.job.check gid s.config ctx (s.config o.conn.ns) with
  | .error e => (s, .error (.forbidden e))
  | .ok _ =>
    let attached := s.attached o.conn ++ o.job.attaches
    ({ s with
      attached := Function.update s.attached o.conn attached
      log := s.log ++ [(o, attached)] }, ran)

/-- `execute_remote`: a connection to the primary that is there is used, whoever opened it. -/
def runThere (s : State B) (o : Open) (ran : Except Failure Unit) : State B × Except Failure Unit :=
  let ctx := (s.remote o.conn).getD o.ctx
  { s with remote := Function.update s.remote o.conn (some ctx) }.runFor gid ctx o ran

/-- A job runs on its connection.  Descriptions are never sent on. -/
def runJob (s : State B) (o : Open) (place : Place) (ran : Except Failure Unit) :
    State B × Except Failure Unit :=
  match o.conn.replica, o.job, place with
  | false, _, _ | true, .describe _, _ | true, .program _, .here => s.runFor gid o.ctx o ran
  | true, .program _, .there => s.runThere gid o ran
  | true, .program _, .both =>
    match s.runFor gid o.ctx o (.ok ()) with
    | (s, .ok _) => s.runThere gid o ran
    | (s, .error e) => (s, .error e)

/-- The connection of a stream, `get_db`. -/
def getDb (stream : Stream) : Except Failure Connection :=
  match stream.db with
  | some conn => .ok conn
  | none => .error (.protocol .batonStreamClosed)

/-- A request of a pipeline that runs a job on the stream's connection. -/
def runOn (s : State B) (ctx : RequestContext) (stream : Stream) (job : Except Failure Job)
    (place : Place) (ran : Except Failure Unit) : State B × Except Failure Stream :=
  match getDb stream, job with
  | .error e, _ => (s, .error e)
  | .ok _, .error e => (s, .error e)
  | .ok conn, .ok job =>
    let (s, result) := s.runJob gid ⟨conn, ctx, job⟩ place ran
    (s, result.map (fun _ => stream))

def tryHandle (s : State B) (ctx : RequestContext) (version : Version) (stream : Stream)
    (place : Place) (ran : Except Failure Unit) : StreamRequest B → State B × Except Failure Stream
  | .none => (s, .error (.protocol .noneStreamRequest))
  | .close => (s, .ok { stream with db := none })
  | .run batch =>
    s.runOn gid ctx stream ((toProgram version stream.sqls batch).map .program) place ran
  | .describe sql sqlId =>
    s.runOn gid ctx stream
      (((protoSqlToSql sql sqlId stream.sqls version).map .describe).mapError .protocol) place ran
  | .storeSql sqlId sql =>
    if (stream.sqls.lookup sqlId).isSome then (s, .error (.protocol (.sqlExists sqlId)))
    else if stream.sqls.length ≥ maxSqlCount then
      (s, .error (.response (.sqlTooMany stream.sqls.length)))
    else if sql.utf8ByteSize > maxStoredSqlSize then
      (s, .error (.response (.sqlTooLarge sql.utf8ByteSize)))
    else (s, .ok { stream with sqls := (sqlId, sql) :: stream.sqls })
  | .closeSql sqlId =>
    (s, .ok { stream with sqls := stream.sqls.filter (fun p => p.1 ≠ sqlId) })
  | .getAutocommit =>
    if version.number < Version.hrana3.number then
      (s, .error (.protocol (.notSupported "The `get_autocommit` request" .hrana3)))
    else (s, (getDb stream).bind (fun _ => ran.map (fun _ => stream)))

def setRequest (s : State B) (r : ℕ) (request : Option (Request B)) : State B :=
  { s with requests := Function.update s.requests r request }

def setCursor (s : State B) (k : ℕ) (o : Option Open) : State B :=
  { s with cursors := Function.update s.cursors k o }

def setCall (s : State B) (g : ℕ) (o : Option Open) : State B :=
  { s with calls := Function.update s.calls g o }

def setClient (s : State B) (client : ℕ) (conn : Option Connection) : State B :=
  { s with clients := Function.update s.clients client conn }

def setHandle (s : State B) (streamId : UInt64) (handle : Option Handle) : State B :=
  { s with handles := Function.update s.handles streamId handle }

/-- The guard of a stream is dropped; `release` makes the stream available again. -/
def dropGuard (s : State B) (r : ℕ) (stream : Stream) (release : Bool) : State B :=
  (s.setRequest r none).setHandle stream.streamId
    (if release then some (.available stream) else none)

def release (s : State B) (r : ℕ) (stream : Stream) : State B :=
  s.dropGuard r stream stream.db.isSome

/-- The stream that a baton names, in `acquire`. -/
def lookUp (s : State B) : Baton → Except Failure Stream
  | .forged => .error (.protocol .batonInvalid)
  | .issued streamId batonSeq =>
    match s.handles streamId with
    | none => .error (.protocol .batonInvalid)
    | some .acquired => .error (.protocol .batonReused)
    | some .expired => .error .expired
    | some (.available stream) =>
      if stream.batonSeq ≠ batonSeq then .error (.protocol .batonReused)
      else .ok { stream with batonSeq := stream.batonSeq + 1 }

/-- The connection that is made next. -/
def fresh (s : State B) (ctx : RequestContext) (replica : Bool) : Connection := ⟨s.made, ctx, replica⟩

/-- The request `r` gets its stream. -/
def hold (s : State B) (r : ℕ) (request : Request B) : State B :=
  (s.setHandle request.stream.streamId (some .acquired)).setRequest r (some request)

end State

/-- Steps of the requests and calls, with what random numbers, the database and the clients decide. -/
inductive Step (B : Type)
  | configure (ns : NamespaceName) (config : AuthConfig)
  /-- A request arrives with a baton and acquires its stream. -/
  | acquire (r : ℕ) (ctx : RequestContext) (version : Version) (body : Body B) (baton : Baton)
  /-- A request arrives without one; a connection is made and stored under new random numbers. -/
  | create (r : ℕ) (ctx : RequestContext) (version : Version) (body : Body B)
      (streamId batonSeq : UInt64) (replica : Bool)
  /-- The next request of a pipeline. -/
  | handle (r : ℕ) (place : Place) (ran : Except Failure Unit)
  | respond (r : ℕ)
  /-- The cursor `k` is opened and the stream released. -/
  | openCursor (r k : ℕ)
  | runCursor (k : ℕ) (place : Place) (ran : Except Failure Unit)
  /-- A connection loses its connection to the primary. -/
  | loseRemote (conn : Connection)
  /-- The client of the request is gone. -/
  | abandon (r : ℕ)
  | expire (streamId : UInt64)
  | cleanup (streamId : UInt64)
  /-- A call of the proxy looks its connection up; one that is made may be none of a primary. -/
  | call (g : ℕ) (ctx : RequestContext) (client : ℕ) (job : Job) (isPrimary : Bool)
  | runCall (g : ℕ) (ran : Except Failure Unit)
  /-- A client disconnects, or was idle for too long. -/
  | disconnect (client : ℕ)

namespace State

/-- One step, `none` where it is not possible. -/
def next (s : State B) : Step B → Option (State B)
  | .configure ns config => some { s with config := Function.update s.config ns config }
  | .acquire r ctx version body baton =>
    if (s.requests r).isSome then none
    else
      match s.lookUp baton with
      | .error _ => some s
      | .ok stream => some (s.hold r ⟨ctx, version, body, stream⟩)
  | .create r ctx version body streamId batonSeq replica =>
    if (s.requests r).isSome || (s.handles streamId).isSome then none
    else some ({ s with made := s.made + 1 }.hold r
      ⟨ctx, version, body, ⟨some (s.fresh ctx replica), [], streamId, batonSeq⟩⟩)
  | .handle r place ran =>
    match s.requests r with
    | some ⟨ctx, version, .pipeline (request :: requests), stream⟩ =>
      match s.tryHandle gid toProgram ctx version stream place ran request with
      | (s, .ok stream) => some (s.setRequest r (some ⟨ctx, version, .pipeline requests, stream⟩))
      | (s, .error (.response _)) =>
        some (s.setRequest r (some ⟨ctx, version, .pipeline requests, stream⟩))
      | (s, .error _) => some (s.dropGuard r stream false)
    | _ => none
  | .respond r =>
    match s.requests r with
    | some ⟨_, _, .pipeline [], stream⟩ => some (s.release r stream)
    | _ => none
  | .openCursor r k =>
    match s.requests r with
    | some ⟨ctx, version, .cursor batch, stream⟩ =>
      match getDb stream, toProgram version stream.sqls batch with
      | .ok conn, .ok kinds =>
        if (s.cursors k).isSome then none
        else some ((s.setCursor k (some ⟨conn, ctx, .program kinds⟩)).release r stream)
      | _, _ => some (s.dropGuard r stream false)
    | _ => none
  | .runCursor k place ran =>
    match s.cursors k with
    | some o => some ((s.setCursor k none).runJob gid o place ran).1
    | none => none
  | .loseRemote conn => some { s with remote := Function.update s.remote conn none }
  | .abandon r =>
    match s.requests r with
    | some request => some (s.dropGuard r request.stream false)
    | none => none
  | .expire streamId =>
    match s.handles streamId with
    | some (.available _) => some (s.setHandle streamId (some .expired))
    | _ => none
  | .cleanup streamId =>
    match s.handles streamId with
    | some .expired => some (s.setHandle streamId none)
    | _ => none
  | .call g ctx client job isPrimary =>
    if (s.calls g).isSome then none
    else
      match s.clients client with
      | some conn => some (s.setCall g (some ⟨conn, ctx, job⟩))
      | none =>
        if isPrimary then
          let conn := s.fresh ctx false
          some (({ s with made := s.made + 1 }.setClient client (some conn)).setCall g
            (some ⟨conn, ctx, job⟩))
        else some s
  | .runCall g ran =>
    match s.calls g with
    | some o => some ((s.setCall g none).runJob gid o .here ran).1
    | none => none
  | .disconnect client => some (s.setClient client none)

/-- A server without streams and clients. -/
def new (config : NamespaceName → AuthConfig) : State B :=
  ⟨fun _ => none, fun _ => none, fun _ => none, fun _ => none, fun _ => none, config, 0, fun _ => none,
    fun _ => [], []⟩

end State

/-! ### Every statement is authorised for the namespace of its request -/

/-- The client of the request may run the job on the database of `ns`. -/
def Job.permitted (auth : Authenticated) (ns : NamespaceName) : Job → Prop
  | .program kinds => ∀ kind ∈ kinds, Server.permitted gid auth ns kind
  | .describe _ => auth.hasRight gid ns .read = .ok ()

variable {gid toProgram} {s s' : State B} {o : Open} {place : Place} {ran : Except Failure Unit}
  {stream : Stream} {r : ℕ} {ctx : RequestContext}

theorem Job.permitted_of_check {job : Job} {store : NamespaceName → AuthConfig} {config : AuthConfig}
    (h : job.check gid store ctx config = .ok ()) : job.permitted gid ctx.auth ctx.ns := by
  cases job with
  | program kinds => exact permitted_of_checkProgramAuth h
  | describe sql => exact h

/-- The right to attach a database was checked with the statement that attached it. -/
theorem Job.attachRead_of_permitted {job : Job} {auth : Authenticated} {ns other : NamespaceName}
    (h : job.permitted gid auth ns) (hmem : other ∈ job.attaches) :
    auth.hasRight gid other .attachRead = .ok () := by
  cases job with
  | describe sql => cases hmem
  | program kinds =>
    obtain ⟨kind, hkind, heq⟩ := List.mem_filterMap.1 hmem
    cases kind with
    | attach ns' =>
      cases heq
      exact h _ hkind
    | _ => cases heq

/-! ### Requests that stay with their connection -/

/-- A request or call that names a stored connection comes from the client, and is sent to the
namespace, that the connection was opened for. -/
def ownClient (s : State B) : Step B → Bool
  | .acquire _ ctx _ _ baton =>
    match s.lookUp baton with
    | .ok stream => stream.db.all (fun conn => conn.opener = ctx)
    | .error _ => true
  | .call _ ctx client _ _ => (s.clients client).all (fun conn => conn.opener = ctx)
  | _ => true

/-- Whoever is about to run something opened the connection it is to run on; what is open to the
primary was opened by the same, and they may read what is attached. -/
structure Inv (gid : Option String) (s : State B) : Prop where
  requests : ∀ r request conn, s.requests r = some request → request.stream.db = some conn →
    conn.opener = request.ctx
  cursors : ∀ k o, s.cursors k = some o → o.conn.opener = o.ctx
  calls : ∀ g o, s.calls g = some o → o.conn.opener = o.ctx
  remote : ∀ conn ctx, s.remote conn = some ctx → ctx = conn.opener
  attached : ∀ conn, ∀ ns ∈ s.attached conn, conn.opener.auth.hasRight gid ns .attachRead = .ok ()
  log : ∀ p ∈ s.log, p.1.conn.opener = p.1.ctx ∧ p.1.job.permitted gid p.1.ctx.auth p.1.ctx.ns ∧
    ∀ ns ∈ p.2, p.1.ctx.auth.hasRight gid ns .attachRead = .ok ()

theorem inv_new (config : NamespaceName → AuthConfig) : Inv gid (State.new (B := B) config) where
  requests _ _ _ h := by cases h
  cursors _ _ h := by cases h
  calls _ _ h := by cases h
  remote _ _ h := by cases h
  attached _ _ h := absurd h List.not_mem_nil
  log _ h := absurd h List.not_mem_nil

theorem forall_update {α β : Type} [DecidableEq α] {f : α → Option β} {P : β → Prop} {a : α}
    {b : Option β} (h : ∀ x y, f x = some y → P y) (hb : ∀ y, b = some y → P y) :
    ∀ x y, Function.update f a b x = some y → P y :=
  (Function.forall_update_iff f fun _ b => ∀ y, b = some y → P y).2 ⟨hb, fun x _ => h x⟩

/-- The request is one of the client that opened its connection. -/
def Request.own (request : Request B) : Prop :=
  ∀ conn, request.stream.db = some conn → conn.opener = request.ctx

variable (h : Inv gid s) {request : Request B}
include h

theorem Inv.own (hr : s.requests r = some request) : request.own :=
  fun conn => h.requests r request conn hr

theorem Inv.setRequest {request : Option (Request B)}
    (hrequest : ∀ q, request = some q → q.own) : Inv gid (s.setRequest r request) where
  __ := h
  requests r' q conn hq := by
    have hall : ∀ x y, s.requests x = some y → y.own := fun x y hy => h.own hy
    exact forall_update hall hrequest r' q hq conn

theorem Inv.setHandle {streamId : UInt64} {handle : Option Handle} :
    Inv gid (s.setHandle streamId handle) :=
  { h with }

theorem Inv.setClient {client : ℕ} {conn : Option Connection} : Inv gid (s.setClient client conn) :=
  { h with }

theorem Inv.setCursor {k : ℕ} {o : Option Open}
    (ho : ∀ x, o = some x → x.conn.opener = x.ctx) : Inv gid (s.setCursor k o) :=
  { h with cursors := forall_update h.cursors ho }

theorem Inv.setCall {g : ℕ} {o : Option Open}
    (ho : ∀ x, o = some x → x.conn.opener = x.ctx) : Inv gid (s.setCall g o) :=
  { h with calls := forall_update h.calls ho }

theorem Inv.setRemote {conn : Connection} {remote : Option RequestContext}
    (hremote : ∀ ctx, remote = some ctx → ctx = conn.opener) :
    Inv gid { s with remote := Function.update s.remote conn remote } where
  __ := h
  remote := (Function.forall_update_iff s.remote
    fun conn b => ∀ ctx, b = some ctx → ctx = conn.opener).2 ⟨hremote, fun conn' _ => h.remote conn'⟩

theorem Inv.dropGuard {release : Bool} : Inv gid (s.dropGuard r stream release) :=
  (h.setRequest (fun _ heq => by cases heq)).setHandle

theorem Inv.hold (hown : request.own) : Inv gid (s.hold r request) :=
  h.setHandle.setRequest (fun _ heq => some.inj heq ▸ hown)

theorem Inv.runFor (ho : o.conn.opener = o.ctx) : Inv gid (s.runFor gid o.ctx o ran).1 := by
  unfold State.runFor
  cases hcheck : o.job.check gid s.config o.ctx (s.config o.conn.ns) with
  | error e => exact h
  | ok _ =>
    have hperm := Job.permitted_of_check hcheck
    -- what was attached before, by this client, and what the job attaches
    have hattached : ∀ ns ∈ s.attached o.conn ++ o.job.attaches,
        o.ctx.auth.hasRight gid ns .attachRead = .ok () := by
      intro ns hns
      rcases List.mem_append.1 hns with hold | hnew
      · exact ho ▸ h.attached o.conn ns hold
      · exact Job.attachRead_of_permitted hperm hnew
    exact
      { h with
        attached := (Function.forall_update_iff s.attached fun conn l => ∀ ns ∈ l,
          conn.opener.auth.hasRight gid ns .attachRead = .ok ()).2
            ⟨ho.symm ▸ hattached, fun conn _ => h.attached conn⟩
        log := List.forall_mem_append.2
          ⟨h.log, List.forall_mem_singleton.2 ⟨ho, hperm, hattached⟩⟩ }

theorem Inv.runThere (ho : o.conn.opener = o.ctx) : Inv gid (s.runThere gid o ran).1 := by
  have hctx : (s.remote o.conn).getD o.ctx = o.ctx := by
    cases hremote : s.remote o.conn with
    | none => rfl
    | some ctx => exact (h.remote o.conn ctx hremote).trans ho
  unfold State.runThere
  rw [hctx]
  exact (h.setRemote fun ctx heq => (some.inj heq).symm.trans ho.symm).runFor ho

theorem Inv.runJob (ho : o.conn.opener = o.ctx) : Inv gid (s.runJob gid o place ran).1 := by
  unfold State.runJob
  split
  · exact h.runFor ho
  · exact h.runFor ho
  · exact h.runFor ho
  · exact h.runThere ho
  · have hhere : Inv gid (s.runFor gid o.ctx o (.ok ())).1 := h.runFor ho
    split <;> rename_i heq <;> rw [heq] at hhere
    · exact hhere.runThere ho
    · exact hhere

omit h

/-- A request of a pipeline keeps the connection of its stream, or closes it. -/
theorem inv_runOn (job : Except Failure Job) (h : Inv gid s)
    (hown : ∀ conn, stream.db = some conn → conn.opener = ctx) :
    Inv gid (s.runOn gid ctx stream job place ran).1 ∧
      ∀ stream', (s.runOn gid ctx stream job place ran).2 = .ok stream' → stream' = stream := by
  unfold State.runOn State.getDb
  cases hdb : stream.db with
  | none => exact ⟨h, fun _ heq => by cases heq⟩
  | some conn =>
    cases job with
    | error e => exact ⟨h, fun _ heq => by cases heq⟩
    | ok job =>
      refine ⟨h.runJob (hown conn hdb), fun stream' heq => ?_⟩
      simp only at heq
      cases hres : (s.runJob gid ⟨conn, ctx, job⟩ place ran).2
      all_goals rw [hres] at heq
      · cases heq
      · exact (Except.ok.inj heq).symm

theorem inv_tryHandle (toProgram : ToProgram B) (version : Version) (place : Place)
    (ran : Except Failure Unit) (h : Inv gid s)
    (hown : ∀ conn, stream.db = some conn → conn.opener = ctx) (request : StreamRequest B) :
    Inv gid (s.tryHandle gid toProgram ctx version stream place ran request).1 ∧
      ∀ stream', (s.tryHandle gid toProgram ctx version stream place ran request).2 = .ok stream' →
        ∀ conn, stream'.db = some conn → conn.opener = ctx := by
  cases request with
  | none => exact ⟨h, fun _ heq => by cases heq⟩
  | close =>
    refine ⟨h, fun stream' heq conn hconn => ?_⟩
    obtain rfl := Except.ok.inj heq
    cases hconn
  | run batch =>
    obtain ⟨hinv, hsame⟩ :=
      inv_runOn ((toProgram version stream.sqls batch).map .program) h hown
    exact ⟨hinv, fun stream' heq => hsame stream' heq ▸ hown⟩
  | describe sql sqlId =>
    obtain ⟨hinv, hsame⟩ := inv_runOn
      (((protoSqlToSql sql sqlId stream.sqls version).map .describe).mapError .protocol) h hown
    exact ⟨hinv, fun stream' heq => hsame stream' heq ▸ hown⟩
  | storeSql sqlId sql =>
    simp only [State.tryHandle]
    split_ifs
    on_goal 4 => exact ⟨h, fun stream' heq => Except.ok.inj heq ▸ hown⟩
    all_goals exact ⟨h, fun _ heq => by cases heq⟩
  | closeSql sqlId => exact ⟨h, fun stream' heq => Except.ok.inj heq ▸ hown⟩
  | getAutocommit =>
    simp only [State.tryHandle, State.getDb]
    split_ifs
    · exact ⟨h, fun _ heq => by cases heq⟩
    refine ⟨h, fun stream' heq => ?_⟩
    cases hdb : stream.db with
    | none =>
      rw [hdb] at heq
      cases heq
    | some conn =>
      cases ran with
      | error e =>
        rw [hdb] at heq
        cases heq
      | ok _ =>
        rw [hdb] at heq
        exact Except.ok.inj heq ▸ hown

theorem Inv.handle (h : Inv gid s)
    (hnext : s.next gid toProgram (.handle r place ran) = some s') : Inv gid s' := by
  simp only [State.next] at hnext
  split at hnext
  swap
  · cases hnext
  rename_i ctx version request requests stream hr
  obtain ⟨hinv, hstream⟩ := inv_tryHandle toProgram version place ran h (h.own hr) request
  split at hnext <;> rename_i heq <;> cases hnext <;> rw [heq] at hinv
  · rw [heq] at hstream
    exact hinv.setRequest (fun _ hq => some.inj hq ▸ hstream _ rfl)
  · refine hinv.setRequest (fun _ hq => ?_)
    cases hq
    exact fun conn => h.own hr conn
  · exact hinv.dropGuard

/-- The task of a cursor gets the connection of the stream. -/
theorem Inv.openCursor (h : Inv gid s) {k : ℕ}
    (hnext : s.next gid toProgram (.openCursor r k) = some s') : Inv gid s' := by
  simp only [State.next] at hnext
  split at hnext
  swap
  · cases hnext
  rename_i ctx version batch stream hr
  split at hnext
  · rename_i conn kinds hdb _
    split_ifs at hnext
    cases hnext
    refine Inv.dropGuard (h.setCursor (fun o ho => ?_))
    cases ho
    refine h.own hr conn ?_
    unfold State.getDb at hdb
    split at hdb
    · rename_i conn' hconn
      rw [hconn, Except.ok.inj hdb]
    · cases hdb
  · cases hnext
    exact h.dropGuard

theorem next_inv {e : Step B} (h : Inv gid s) (hown : ownClient s e = true)
    (hnext : s.next gid toProgram e = some s') : Inv gid s' := by
  cases e
  case handle r place ran => exact h.handle hnext
  case openCursor r k => exact h.openCursor hnext
  all_goals simp only [State.next] at hnext
  case configure ns config =>
    cases hnext
    exact { h with }
  case acquire r ctx version body baton =>
    split_ifs at hnext
    split at hnext
    · exact some.inj hnext ▸ h
    rename_i stream hstream
    cases hnext
    simp only [ownClient, hstream, all_eq_true, decide_eq_true_eq] at hown
    exact h.hold hown
  case create r ctx version body streamId batonSeq replica =>
    split_ifs at hnext
    cases hnext
    have hmade : Inv gid { s with made := s.made + 1 } := { h with }
    exact hmade.hold (fun conn hconn => some.inj hconn ▸ rfl)
  case respond r | abandon r =>
    split at hnext
    · cases hnext
      exact h.dropGuard
    · cases hnext
  case runCursor k place ran =>
    split at hnext
    · rename_i o ho
      cases hnext
      exact (h.setCursor (fun _ heq => by cases heq)).runJob (h.cursors k o ho)
    · cases hnext
  case loseRemote conn =>
    cases hnext
    exact h.setRemote (fun _ heq => by cases heq)
  case expire streamId | cleanup streamId =>
    split at hnext
    · cases hnext
      exact h.setHandle
    · cases hnext
  case call g ctx client job isPrimary =>
    split at hnext
    · cases hnext
    split at hnext
    · rename_i conn hclient
      cases hnext
      simp only [ownClient, hclient, all_some, decide_eq_true_eq] at hown
      exact h.setCall (fun o ho => some.inj ho ▸ hown)
    · split_ifs at hnext
      · cases hnext
        have hmade : Inv gid { s with made := s.made + 1 } := { h with }
        exact hmade.setClient.setCall (fun o ho => some.inj ho ▸ rfl)
      · exact some.inj hnext ▸ h
  case runCall g ran =>
    split at hnext
    · rename_i o ho
      cases hnext
      exact (h.setCall (fun _ heq => by cases heq)).runJob (h.calls g o ho)
    · cases hnext
  case disconnect client =>
    cases hnext
    exact h.setClient

/-- A client with all rights on one namespace. -/
def ownerOf (ns : NamespaceName) : RequestContext :=
  ⟨.authorized ⟨none, some ⟨some [ns], none⟩, none, none, none⟩, ns⟩

/-- A client that may read one namespace. -/
def readerOf (ns : NamespaceName) : RequestContext :=
  ⟨.authorized ⟨some ⟨some [ns], none⟩, none, none, none, none⟩, ns⟩

def plain : NamespaceName → AuthConfig := fun _ => ⟨none, false⟩

/-- Each batch is one statement that writes. -/
def oneWrite : ToProgram Unit := fun _ _ _ => .ok [.write]

/-- The owner of `a` opens a stream and writes over it, and so does whoever has the baton. -/
def reused (replica : Bool) (ctx : RequestContext) : List (Step Unit) :=
  [.create 0 (ownerOf "a") .hrana3 (.pipeline [.run ()]) 7 0 replica, .handle 0 .there (.ok ()),
    .respond 0, .acquire 1 ctx .hrana3 (.pipeline [.run ()]) (.issued 7 0), .handle 1 .there (.ok ())]

end

end SqlAnywhere.Server.Streams
