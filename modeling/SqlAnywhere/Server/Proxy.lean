import Mathlib.Data.Nat.Notation
import SqlAnywhere.Lib.Run
import SqlAnywhere.Lib.Update

/-!
# Transactions through the proxy

Clients that delegate their writes name themselves in each request, and the server keeps a connection
for each of them, with the transaction that the client has open.  It drops the connections that were
idle for thirty seconds, and those of clients that disconnect, and makes a new one for a name that it
does not know.

* `Sys.step` — requests, the garbage collector, disconnections and errors
* `Sys.Right` — a statement of a transaction is executed in that transaction or not at all
* `Sys.Careful` — which runs are considered
* `Sys.in_transaction` — then each step is right
-/

namespace SqlAnywhere.Server.Proxy

open Option
open Function (update_self update_of_ne)

/-- A transaction, by the connection it was begun on. -/
structure Txn where
  conn : ℕ
  id : ℕ
  deriving DecidableEq

/-- A connection of the server: the transaction that is open, and whether a rollback was forced that
its client does not know of. -/
structure Conn where
  txn : Option ℕ
  forcedRollback : Bool
  deriving DecidableEq

/-- `TimeoutConnection` -/
structure Handle where
  conn : ℕ
  atime : ℕ
  deriving DecidableEq

def Handle.idleTime (h : Handle) (now : ℕ) : ℕ := now - h.atime

/-- A request of a client, from its sending to the end of its reply. -/
structure Request where
  client : ℕ
  /-- the connection, once the request has come to it -/
  conn : Option ℕ
  /-- the number of statements still to be executed -/
  left : ℕ
  hasTimeout : Bool
  /-- the transaction that the next statement belongs to; nothing depends on it -/
  txn : Option Txn
  /-- the client still waits for the reply -/
  awaited : Bool
  deriving DecidableEq

structure Sys where
  now : ℕ
  /-- the connections of clients -/
  clients : ℕ → Option Handle
  conns : ℕ → Conn
  nextConn : ℕ
  nextTxn : ℕ
  /-- what clients know from the last reply: their `State` is `Txn` with the transaction that was open
  then, or `Init` -/
  remotes : ℕ → Option Txn
  requests : ℕ → Option Request

inductive Action
  | send (i client statements : ℕ)
  /-- the request comes to a connection; whether one can be made for it -/
  | accept (i : ℕ) (creates : Bool)
  /-- the next statement; whether the connection is in autocommit mode after it -/
  | exec (i : ℕ) (autocommit : Bool)
  /-- the program is done; whether the reply gets through -/
  | finish (i : ℕ) (delivered : Bool)
  /-- the request ends with an error -/
  | fail (i : ℕ)
  /-- the client does not wait for the reply any more -/
  | giveUp (i : ℕ)
  /-- another connection forces a rollback -/
  | forceRollback (conn : ℕ)
  | garbageCollect
  | disconnect (client : ℕ)
  | tick (millis : ℕ)

/-- The time after which a connection is dropped, in milliseconds. -/
def limit : ℕ := 30000

namespace Sys

def start : Sys :=
  ⟨0, fun _ => none, fun _ => ⟨none, false⟩, 0, 0, fun _ => none, fun _ => none⟩

def setRequest (s : Sys) (i : ℕ) (r : Option Request) : Sys :=
  { s with requests := Function.update s.requests i r }

def setConn (s : Sys) (k : ℕ) (conn : Conn) : Sys :=
  { s with conns := Function.update s.conns k conn }

def setClient (s : Sys) (client : ℕ) (h : Option Handle) : Sys :=
  { s with clients := Function.update s.clients client h }

def setRemote (s : Sys) (client : ℕ) (txn : Option Txn) : Sys :=
  { s with remotes := Function.update s.remotes client txn }

/-- The transaction that is open on a connection. -/
def openOn (s : Sys) (k : ℕ) : Option Txn := (s.conns k).txn.map (⟨k, ·⟩)

/-- The connection for a request in `execute`: that of its client, or a new one. -/
def accept (s : Sys) (i : ℕ) (r : Request) (creates : Bool) : Sys :=
  match s.clients r.client with
  | some h =>
    (s.setClient r.client (some { h with atime := s.now })).setRequest i
      (some { r with conn := some h.conn })
  | none =>
    if creates then
      let s' := (s.setClient r.client (some ⟨s.nextConn, s.now⟩)).setConn s.nextConn ⟨none, false⟩
      { s' with nextConn := s.nextConn + 1 }.setRequest i (some { r with conn := some s.nextConn })
    else s.setRequest i none

/-- A statement is refused once a rollback was forced, and so are those after it. -/
def timesOut (s : Sys) (r : Request) (k : ℕ) : Bool :=
  r.hasTimeout || (s.conns k).forcedRollback

/-- The transaction that is open after a statement. -/
def txnAfter (s : Sys) (k : ℕ) (autocommit : Bool) : Option ℕ :=
  if autocommit then none else some ((s.conns k).txn.getD s.nextTxn)

/-- The next statement of a program, on its connection. -/
def exec (s : Sys) (i : ℕ) (r : Request) (k left : ℕ) (autocommit : Bool) : Sys :=
  if s.timesOut r k then
    (s.setConn k { s.conns k with forcedRollback := false }).setRequest i
      (some { r with left, hasTimeout := true })
  else
    let txn := s.txnAfter k autocommit
    { s.setConn k ⟨txn, false⟩ with nextTxn := s.nextTxn + 1 }.setRequest i
      (some { r with left, txn := txn.map (⟨k, ·⟩) })

/-- The end of a program: the reply has the state of the connection. -/
def finish (s : Sys) (i : ℕ) (r : Request) (k : ℕ) (delivered : Bool) : Sys :=
  let s' := s.setRequest i none
  if delivered && r.awaited then s'.setRemote r.client (s.openOn k) else s'

def forceRollback (s : Sys) (k : ℕ) : Sys :=
  if (s.conns k).forcedRollback then s else s.setConn k ⟨none, true⟩

def garbageCollect (s : Sys) : Sys :=
  { s with clients := fun client => (s.clients client).filter (fun h => h.idleTime s.now < limit) }

def step (s : Sys) : Action → Option Sys
  | .send i client statements =>
    match s.requests i with
    | none =>
      some (s.setRequest i (some ⟨client, none, statements, false, s.remotes client, true⟩))
    | some _ => none
  | .accept i creates =>
    match s.requests i with
    | some r => if r.conn.isNone then some (s.accept i r creates) else none
    | none => none
  | .exec i autocommit =>
    match s.requests i with
    | some r =>
      match r.conn, r.left with
      | some k, left + 1 => some (s.exec i r k left autocommit)
      | _, _ => none
    | none => none
  | .finish i delivered =>
    match s.requests i with
    | some r =>
      match r.conn, r.left with
      | some k, 0 => some (s.finish i r k delivered)
      | _, _ => none
    | none => none
  | .fail i => some (s.setRequest i none)
  | .giveUp i => (s.requests i).map fun r => s.setRequest i (some { r with awaited := false })
  | .forceRollback k => some (s.forceRollback k)
  | .garbageCollect => some s.garbageCollect
  | .disconnect client => some (s.setClient client none)
  | .tick millis => some { s with now := s.now + millis }

/-! ### What is asked of the steps -/

/-- **A statement is executed in the transaction that it belongs to, or refused**, and a connection is
made only for a request that belongs to none. -/
def Right (s : Sys) : Action → Prop
  | .accept i creates => ∀ r, s.requests i = some r → r.conn = none → creates = true →
    ∀ t, r.txn = some t → ∃ h, s.clients r.client = some h ∧ h.conn = t.conn
  | .exec i _ => ∀ r k, s.requests i = some r → r.conn = some k → s.timesOut r k = false →
    ∀ t, r.txn = some t → s.openOn k = some t
  | _ => True

/-- The client has no transaction and no request underway. -/
def AtRest (s : Sys) (client : ℕ) : Prop :=
  s.remotes client = none ∧ ∀ i r, s.requests i = some r → r.client ≠ client

/-- What the client knows is right. -/
def Informed (s : Sys) (i : ℕ) : Prop :=
  ∀ r k, s.requests i = some r → r.conn = some k → s.remotes r.client = s.openOn k

/-- A client sends one request after the other; connections are dropped of clients at rest only; and
clients are told when a transaction begins or ends. -/
def Careful (s : Sys) : Action → Prop
  | .send _ client _ => ∀ i r, s.requests i = some r → r.client ≠ client
  | .finish i delivered =>
    (delivered = true ∧ ∀ r, s.requests i = some r → r.awaited = true) ∨ s.Informed i
  | .fail i => s.Informed i
  | .garbageCollect =>
    ∀ client h, s.clients client = some h → limit ≤ h.idleTime s.now → s.AtRest client
  | .disconnect client => s.AtRest client
  | _ => True

/-- The transaction is open, or was rolled back by force and its client's next statement is refused. -/
def Keeps (s : Sys) (t : Txn) : Prop :=
  s.openOn t.conn = some t ∨ (s.conns t.conn).forcedRollback = true

/-- What holds between careful steps. -/
structure Inv (s : Sys) : Prop where
  one : ∀ i j r r', s.requests i = some r → s.requests j = some r' → r.client = r'.client → i = j
  fresh : ∀ c h, s.clients c = some h → h.conn < s.nextConn
  own : ∀ c c' h h', s.clients c = some h → s.clients c' = some h' → h.conn = h'.conn → c = c'
  /-- a client in a transaction has its connection -/
  held : ∀ c t, s.remotes c = some t → ∃ h, s.clients c = some h ∧ h.conn = t.conn
  waiting : ∀ i r, s.requests i = some r → r.conn = none → r.txn = s.remotes r.client
  accepted : ∀ i r k, s.requests i = some r → r.conn = some k →
    (∃ h, s.clients r.client = some h ∧ h.conn = k) ∧
      ∀ t, r.txn = some t → t.conn = k ∧ (r.hasTimeout = true ∨ s.Keeps t)
  /-- while no request of a client is on its connection, its transaction is kept there -/
  idle : ∀ c t, (∀ i r, s.requests i = some r → r.client = c → r.conn = none) →
    s.remotes c = some t → s.Keeps t

/-! ### Parts of the state -/

variable {s s' : Sys} {i : ℕ} {r : Request} {k : ℕ} {r' : Request} {t : Txn} {j : ℕ}
  {new : Option Request}

theorem requests_setRequest_self : (s.setRequest i new).requests i = new :=
  update_self ..

theorem requests_setRequest_of_ne (hj : j ≠ i) :
    (s.setRequest i new).requests j = s.requests j :=
  update_of_ne hj ..

theorem remotes_setRemote_self (c : ℕ) (txn : Option Txn) : (s.setRemote c txn).remotes c = txn :=
  update_self ..

theorem openOn_conn (h : s.openOn k = some t) : t.conn = k := by
  obtain ⟨id, -, rfl⟩ := map_eq_some_iff.1 h
  rfl

theorem keeps_of_conns (h : s'.conns t.conn = s.conns t.conn) (hk : s.Keeps t) :
    s'.Keeps t := by
  unfold Keeps openOn at hk ⊢
  rwa [h]

/-- A step for one client changes nothing for the others, and gives the client no connection that
another has. -/
structure For (c : ℕ) (s s' : Sys) : Prop where
  requests : s'.requests = s.requests
  nextConn : s.nextConn ≤ s'.nextConn
  remotes : ∀ c', c' ≠ c → s'.remotes c' = s.remotes c'
  clients : ∀ c', c' ≠ c → s'.clients c' = s.clients c'
  conns : ∀ c' hd, c' ≠ c → s.clients c' = some hd → s'.conns hd.conn = s.conns hd.conn
  mine : ∀ hd, s'.clients c = some hd → hd.conn < s'.nextConn ∧
    ∀ c' hd', c' ≠ c → s.clients c' = some hd' → hd'.conn ≠ hd.conn

namespace Inv

variable (h : s.Inv) {c : ℕ} {hd : Handle}
include h

theorem own_conn (hc : s.clients c = some hd) :
    hd.conn < s.nextConn ∧ ∀ c' hd', c' ≠ c → s.clients c' = some hd' → hd'.conn ≠ hd.conn :=
  ⟨h.fresh c hd hc, fun c' hd' hne hc' heq => hne (h.own c' c hd' hd hc' hc heq)⟩

theorem for_self : s.For c s :=
  ⟨rfl, Nat.le_refl _, fun _ _ => rfl, fun _ _ => rfl, fun _ _ _ _ => rfl, fun _ => h.own_conn⟩

/-- The transaction of a client is on its connection. -/
theorem conn_of_remote (hc : s.clients c = some hd) (ht : s.remotes c = some t) :
    t.conn = hd.conn := by
  obtain ⟨hd', hhd', heq⟩ := h.held c t ht
  obtain rfl := some.inj (hc.symm.trans hhd')
  exact heq.symm

/-! ### Requests -/

/-- What is to be shown of a step for one client is about this client, and about the request that
takes the place of its own. -/
theorem change (hs : s.For c s') (hi : ∀ j r, s.requests j = some r → (r.client = c ↔ j = i))
    (hheld : ∀ t, s'.remotes c = some t → ∃ hd, s'.clients c = some hd ∧ hd.conn = t.conn)
    (hnew : ∀ r, new = some r → r.client = c ∧ (r.conn = none → r.txn = s'.remotes c) ∧
      ∀ k, r.conn = some k → (∃ hd, s'.clients c = some hd ∧ hd.conn = k) ∧
        ∀ t, r.txn = some t → t.conn = k ∧ (r.hasTimeout = true ∨ s'.Keeps t))
    (hidle : (∀ r, new = some r → r.conn = none) → ∀ t, s'.remotes c = some t → s'.Keeps t) :
    (s'.setRequest i new).Inv := by
  have hold : ∀ {j r}, (s'.setRequest i new).requests j = some r →
      (j = i ∧ new = some r) ∨ (s.requests j = some r ∧ r.client ≠ c) := by
    intro j r hr
    rcases of_update_eq_some hr with hr | ⟨hj, hr⟩
    · exact .inl hr
    · rw [hs.requests] at hr
      exact .inr ⟨hr, fun hc => hj ((hi j r hr).1 hc)⟩
  refine ⟨?_, ?_, ?_, ?_, ?_, ?_, ?_⟩
  · intro j j' r₁ r₂ h₁ h₂ heq
    rcases hold h₁ with ⟨hj, h₁⟩ | ⟨h₁, hne₁⟩ <;> rcases hold h₂ with ⟨hj', h₂⟩ | ⟨h₂, hne₂⟩
    · exact hj.trans hj'.symm
    · exact absurd (heq.symm.trans (hnew _ h₁).1) hne₂
    · exact absurd (heq.trans (hnew _ h₂).1) hne₁
    · exact h.one j j' r₁ r₂ h₁ h₂ heq
  · intro c' hd hc'
    by_cases hc : c' = c
    · subst hc
      exact (hs.mine hd hc').1
    · exact Nat.lt_of_lt_of_le (h.fresh c' hd ((hs.clients c' hc).symm.trans hc')) hs.nextConn
  · intro c₁ c₂ hd₁ hd₂ h₁ h₂ heq
    by_cases hc₁ : c₁ = c <;> by_cases hc₂ : c₂ = c
    · exact hc₁.trans hc₂.symm
    · subst hc₁
      exact absurd heq.symm ((hs.mine hd₁ h₁).2 c₂ hd₂ hc₂ ((hs.clients c₂ hc₂).symm.trans h₂))
    · subst hc₂
      exact absurd heq ((hs.mine hd₂ h₂).2 c₁ hd₁ hc₁ ((hs.clients c₁ hc₁).symm.trans h₁))
    · exact h.own c₁ c₂ hd₁ hd₂ ((hs.clients c₁ hc₁).symm.trans h₁)
        ((hs.clients c₂ hc₂).symm.trans h₂) heq
  · intro c' t ht
    by_cases hc : c' = c
    · subst hc
      exact hheld t ht
    · obtain ⟨hd, hhd, heq⟩ := h.held c' t ((hs.remotes c' hc).symm.trans ht)
      exact ⟨hd, (hs.clients c' hc).trans hhd, heq⟩
  · intro j r hr hnone
    rcases hold hr with ⟨-, hr⟩ | ⟨hr, hne⟩
    · obtain ⟨rfl, hwaiting, -⟩ := hnew r hr
      exact hwaiting hnone
    · exact (h.waiting j r hr hnone).trans (hs.remotes _ hne).symm
  · intro j r k hr hk
    rcases hold hr with ⟨-, hr⟩ | ⟨hr, hne⟩
    · obtain ⟨rfl, -, haccepted⟩ := hnew r hr
      exact haccepted k hk
    · obtain ⟨⟨hd, hhd, rfl⟩, htxn⟩ := h.accepted j r k hr hk
      refine ⟨⟨hd, (hs.clients _ hne).trans hhd, rfl⟩, fun t ht => ?_⟩
      obtain ⟨hconn, hor⟩ := htxn t ht
      refine ⟨hconn, hor.imp_right fun hkeeps => keeps_of_conns ?_ hkeeps⟩
      rw [hconn]
      exact hs.conns _ hd hne hhd
  · intro c' t hnone ht
    by_cases hc : c' = c
    · subst hc
      refine hidle (fun r hr => hnone i r ?_ (hnew r hr).1) t ht
      rw [requests_setRequest_self, hr]
    · replace ht : s.remotes c' = some t := (hs.remotes c' hc).symm.trans ht
      obtain ⟨hd, hhd, heq⟩ := h.held c' t ht
      refine keeps_of_conns (heq ▸ hs.conns c' hd hc hhd) (h.idle c' t (fun j r hr hclient => ?_) ht)
      refine hnone j r ?_ hclient
      rw [requests_setRequest_of_ne, hs.requests, hr]
      intro hj
      exact hc (hclient.symm.trans ((hi j r hr).2 hj))

theorem send {client statements : ℕ} (hfree : s.requests i = none)
    (hone : ∀ i r, s.requests i = some r → r.client ≠ client) :
    (s.setRequest i (some ⟨client, none, statements, false, s.remotes client, true⟩)).Inv := by
  refine h.change h.for_self (fun j r hr => iff_of_false (hone j r hr) ?_) (h.held client) ?_
    (fun _ t => h.idle client t fun j r hr hc => absurd hc (hone j r hr))
  · rintro rfl
    simp [hfree] at hr
  · rintro _ ⟨⟩
    exact ⟨rfl, fun _ => rfl, nofun⟩

section request

variable (hr : s.requests i = some r)
include hr

theorem client_iff (j : ℕ) (r' : Request) (hr' : s.requests j = some r') :
    r'.client = r.client ↔ j = i := by
  refine ⟨h.one j i r' r hr' hr, ?_⟩
  rintro rfl
  rw [some.inj (hr'.symm.trans hr)]

theorem idle_of_waiting (hconn : r.conn = none) (ht : s.remotes r.client = some t) : s.Keeps t := by
  refine h.idle r.client t (fun j r' hr' hc => ?_) ht
  obtain rfl := (h.client_iff hr j r' hr').1 hc
  rw [some.inj (hr'.symm.trans hr)]
  exact hconn

end request

theorem remove (hinf : s.Informed i) : (s.setRequest i none).Inv := by
  cases hr : s.requests i with
  | none =>
    have hsame : s.setRequest i none = s := by rw [setRequest, ← hr, Function.update_eq_self]
    rw [hsame]
    exact h
  | some r =>
    refine h.change h.for_self (h.client_iff hr) (h.held r.client) nofun fun _ t ht => ?_
    cases hconn : r.conn with
    | none => exact h.idle_of_waiting hr hconn ht
    | some k =>
      have hopen := (hinf r k hr hconn).symm.trans ht
      refine .inl ?_
      rwa [openOn_conn hopen]

variable (hr : s.requests i = some r)
include hr

/-- A request is on the connection `k` of its client. -/
theorem onConn (hs : s.For r.client s') (hremotes : s'.remotes = s.remotes)
    (hclient : r'.client = r.client) (hconn : r'.conn = some k)
    (hmine : ∃ hd, s'.clients r.client = some hd ∧ hd.conn = k)
    (hremote : ∀ t, s.remotes r.client = some t → t.conn = k)
    (htxn : ∀ t, r'.txn = some t → t.conn = k ∧ (r'.hasTimeout = true ∨ s'.Keeps t)) :
    (s'.setRequest i (some r')).Inv := by
  obtain ⟨hd, hhd, rfl⟩ := hmine
  refine h.change hs (h.client_iff hr) (fun t ht => ⟨hd, hhd, ?_⟩) ?_ (fun hnone => ?_)
  · rw [hremotes] at ht
    exact (hremote t ht).symm
  · rintro _ ⟨⟩
    refine ⟨hclient, fun hnone => by simp [hconn] at hnone, fun k hk => ?_⟩
    obtain rfl := some.inj (hconn.symm.trans hk)
    exact ⟨⟨hd, hhd, rfl⟩, htxn⟩
  · simp [hnone r' rfl] at hconn

theorem handle_of_waiting (hconn : r.conn = none)
    (ht : r.txn = some t) : ∃ hd, s.clients r.client = some hd ∧ hd.conn = t.conn :=
  h.held r.client t ((h.waiting i r hr hconn).symm.trans ht)

theorem accept (hconn : r.conn = none) (creates : Bool) :
    (s.accept i r creates).Inv := by
  unfold Sys.accept
  cases hclient : s.clients r.client with
  | some hd =>
    refine h.onConn hr ⟨rfl, Nat.le_refl _, fun _ _ => rfl, fun c hc => update_of_ne hc ..,
      fun _ _ _ _ => rfl, ?_⟩ rfl rfl rfl ⟨_, update_self .., rfl⟩ (fun _ => h.conn_of_remote hclient)
      (fun t ht => ?_)
    · intro hd' hhd'
      simp only [setClient, update_self] at hhd'
      cases hhd'
      have hown := h.own_conn hclient
      exact hown
    · have ht' := (h.waiting i r hr hconn).symm.trans ht
      exact ⟨h.conn_of_remote hclient ht', .inr (h.idle_of_waiting hr hconn ht')⟩
  | none =>
    have hno : s.remotes r.client = none := by
      cases hremote : s.remotes r.client with
      | none => rfl
      | some t =>
        obtain ⟨hd, hhd, -⟩ := h.held r.client t hremote
        simp [hclient] at hhd
    cases creates with
    | true =>
      have hfresh : ∀ c hd, s.clients c = some hd → hd.conn ≠ s.nextConn :=
        fun c hd hhd => Nat.ne_of_lt (h.fresh c hd hhd)
      refine h.onConn hr ⟨rfl, Nat.le_succ _, fun _ _ => rfl, fun c hc => update_of_ne hc ..,
        fun c hd _ hhd => update_of_ne (hfresh c hd hhd) .., ?_⟩ rfl rfl rfl
        ⟨_, update_self .., rfl⟩ ?_ ?_
      · intro hd hhd
        simp only [setClient, setConn, update_self] at hhd
        cases hhd
        exact ⟨Nat.lt_succ_self _, fun c' hd' _ => hfresh c' hd'⟩
      · intro t ht
        simp [hno] at ht
      · intro t ht
        have ht' := (h.waiting i r hr hconn).symm.trans ht
        rw [hno] at ht'
        cases ht'
    | false =>
      refine h.remove fun r' k hr' hk => ?_
      obtain rfl := some.inj (hr.symm.trans hr')
      simp [hconn] at hk

theorem exec (hconn : r.conn = some k)
    (left : ℕ) (autocommit : Bool) : (s.exec i r k left autocommit).Inv := by
  obtain ⟨⟨hd, hhd, rfl⟩, htxn⟩ := h.accepted i r k hr hconn
  have hown := h.own_conn hhd
  have hs : ∀ conn n, s.For r.client { s.setConn hd.conn conn with nextTxn := n } := fun conn n =>
    { h.for_self with
      conns := fun c hd' hc hhd' => update_of_ne (hown.2 c hd' hc hhd') .. }
  unfold Sys.exec
  split
  · refine h.onConn hr (hs _ _) rfl rfl hconn ⟨hd, hhd, rfl⟩ (fun _ => h.conn_of_remote hhd) ?_
    intro t ht
    exact ⟨(htxn t ht).1, .inl rfl⟩
  · refine h.onConn hr (hs _ _) rfl rfl hconn ⟨hd, hhd, rfl⟩ (fun _ => h.conn_of_remote hhd) ?_
    intro t ht
    obtain ⟨id, hid, rfl⟩ := map_eq_some_iff.1 ht
    refine ⟨rfl, .inr (.inl ?_)⟩
    show (Function.update s.conns hd.conn _ hd.conn).txn.map _ = _
    rw [update_self, hid]
    rfl

theorem deliver (hconn : r.conn = some k) :
    ((s.setRequest i none).setRemote r.client (s.openOn k)).Inv := by
  obtain ⟨⟨hd, hhd, hk⟩, -⟩ := h.accepted i r k hr hconn
  have hs : s.For r.client (s.setRemote r.client (s.openOn k)) :=
    { h.for_self with remotes := fun c hc => update_of_ne hc .. }
  refine h.change hs (h.client_iff hr) (fun t ht => ⟨hd, hhd, ?_⟩) nofun (fun _ t ht => .inl ?_)
  · rw [remotes_setRemote_self] at ht
    exact hk.trans (openOn_conn ht).symm
  · rw [remotes_setRemote_self] at ht
    rw [openOn_conn ht]
    exact ht

theorem giveUp :
    (s.setRequest i (some { r with awaited := false })).Inv := by
  refine h.change h.for_self (h.client_iff hr) (h.held r.client) ?_ (fun hnone t ht => ?_)
  · rintro _ ⟨⟩
    exact ⟨rfl, h.waiting i r hr, fun k => h.accepted i r k hr⟩
  · have hconn : r.conn = none := hnone { r with awaited := false } rfl
    exact h.idle_of_waiting hr hconn ht

omit hr

/-! ### Connections -/

theorem forceRollback (k : ℕ) : (s.forceRollback k).Inv := by
  unfold Sys.forceRollback
  split
  · exact h
  have hkeeps : ∀ t, s.Keeps t → (s.setConn k ⟨none, true⟩).Keeps t := by
    intro t ht
    by_cases hk : t.conn = k
    · refine .inr ?_
      show (Function.update s.conns k _ t.conn).forcedRollback = true
      rw [hk, update_self]
    · exact keeps_of_conns (update_of_ne hk ..) ht
  refine ⟨h.one, h.fresh, h.own, h.held, h.waiting, fun i r k' hr hk' => ?_,
    fun c t hnone ht => hkeeps t (h.idle c t hnone ht)⟩
  obtain ⟨hhandle, htxn⟩ := h.accepted i r k' hr hk'
  exact ⟨hhandle, fun t ht => ⟨(htxn t ht).1, (htxn t ht).2.imp_right (hkeeps t)⟩⟩

theorem drop {clients : ℕ → Option Handle}
    (hsub : ∀ c hd, clients c = some hd → s.clients c = some hd)
    (hkeep : ∀ c hd, s.clients c = some hd → clients c = some hd ∨ s.AtRest c) :
    Inv { s with clients } := by
  refine ⟨h.one, fun c hd hc => h.fresh c hd (hsub c hd hc),
    fun c c' hd hd' hc hc' => h.own c c' hd hd' (hsub c hd hc) (hsub c' hd' hc'), ?_, h.waiting, ?_,
    h.idle⟩
  · intro c t ht
    obtain ⟨hd, hhd, heq⟩ := h.held c t ht
    rcases hkeep c hd hhd with hkept | hrest
    · exact ⟨hd, hkept, heq⟩
    · simp [hrest.1] at ht
  · intro i r k hr hk
    obtain ⟨⟨hd, hhd, heq⟩, htxn⟩ := h.accepted i r k hr hk
    rcases hkeep r.client hd hhd with hkept | hrest
    · exact ⟨⟨hd, hkept, heq⟩, htxn⟩
    · exact absurd rfl (hrest.2 i r hr)

/-! ### All steps -/

theorem step {a : Action} (hc : s.Careful a) (hs : s.step a = some s') : s'.Inv := by
  cases a with
  | send i client statements =>
    simp only [Sys.step] at hs
    split at hs
    · rename_i hfree
      cases hs
      exact h.send hfree hc
    · cases hs
  | accept i creates =>
    simp only [Sys.step] at hs
    split at hs
    · rename_i r hr
      split at hs
      · rename_i hconn
        cases hs
        exact h.accept hr (isNone_iff_eq_none.1 hconn) creates
      · cases hs
    · cases hs
  | exec i autocommit =>
    simp only [Sys.step] at hs
    split at hs
    · rename_i r hr
      split at hs
      · rename_i k left hconn _
        cases hs
        exact h.exec hr hconn left autocommit
      · cases hs
    · cases hs
  | finish i delivered =>
    simp only [Sys.step] at hs
    split at hs
    · rename_i r hr
      split at hs
      · rename_i k hconn _
        cases hs
        unfold Sys.finish
        split
        · exact h.deliver hr hconn
        rename_i hno
        rcases hc with ⟨hdelivered, hawaited⟩ | hinf
        · exact absurd (by rw [hdelivered, hawaited r hr]; rfl) hno
        · exact h.remove hinf
      · cases hs
    · cases hs
  | fail i =>
    cases hs
    exact h.remove hc
  | giveUp i =>
    obtain ⟨r, hr, rfl⟩ := map_eq_some_iff.1 hs
    exact h.giveUp hr
  | forceRollback k =>
    cases hs
    exact h.forceRollback k
  | garbageCollect =>
    cases hs
    refine h.drop (fun c hd hc' => (filter_eq_some_iff.1 hc').1) fun c hd hhd => ?_
    by_cases hidle : hd.idleTime s.now < limit
    · exact .inl (filter_eq_some_iff.2 ⟨hhd, decide_eq_true hidle⟩)
    · exact .inr (hc c hd hhd (Nat.le_of_not_lt hidle))
  | disconnect client =>
    cases hs
    refine h.drop ?_ fun c hd hhd => ?_
    · intro c hd hhd
      rcases of_update_eq_some hhd with ⟨-, ⟨⟩⟩ | ⟨-, hhd⟩
      exact hhd
    · by_cases hcl : c = client
      · subst hcl
        exact .inr hc
      · exact .inl ((update_of_ne hcl ..).trans hhd)
  | tick millis =>
    cases hs
    exact ⟨h.one, h.fresh, h.own, h.held, h.waiting, h.accepted, h.idle⟩

theorem right (a : Action) : s.Right a := by
  cases a with
  | accept i creates =>
    intro r hr hconn _ t ht
    exact h.handle_of_waiting hr hconn ht
  | exec i autocommit =>
    intro r k hr hconn htimeout t ht
    rw [timesOut, Bool.or_eq_false_iff] at htimeout
    obtain ⟨rfl, hor⟩ := ((h.accepted i r k hr hconn).2 t ht)
    rcases hor with hhas | hopen | hforced
    · exact absurd (htimeout.1.symm.trans hhas) (by decide)
    · exact hopen
    · exact absurd (htimeout.2.symm.trans hforced) (by decide)
  | _ => trivial

omit h

theorem start : Sys.start.Inv :=
  ⟨nofun, nofun, nofun, nofun, nofun, nofun, nofun⟩

end Inv

/-- **The statements of a transaction are executed in it or refused**, in every run of careful steps. -/
theorem in_transaction (as : List Action) (hcareful : Run.Along step Careful start as) :
    Run.Along step Right start as :=
  Run.along_imp (I := Inv) (fun _ a hinv _ => hinv.right a) (fun _ _ _ hinv hc hs => hinv.step hc hs)
    Inv.start hcareful

/-- A client begins a transaction and writes in it, which leaves it open. -/
def begun : List Action :=
  [.send 0 7 2, .accept 0 true, .exec 0 false, .exec 0 false, .finish 0 true]

theorem in_transaction_begun :
    Run.Along step Right start begun ∧
      (Run.exec step start begun).map (·.remotes 7) = some (some ⟨0, 0⟩) := by
  refine ⟨in_transaction begun ⟨nofun, fun _ hs => ?_⟩, rfl⟩
  cases hs
  refine ⟨trivial, fun _ hs => ?_⟩
  cases hs
  refine ⟨trivial, fun _ hs => ?_⟩
  cases hs
  refine ⟨trivial, fun _ hs => ?_⟩
  cases hs
  -- the reply gets through
  refine ⟨.inl ⟨rfl, fun r hr => ?_⟩, fun _ _ => trivial⟩
  cases hr
  rfl

/-- **A transaction goes on without its beginning**: its connection is dropped after thirty seconds, and
the next write of the transaction is executed on a new connection, where it is committed by itself. -/
theorem half_committed : ∃ s r,
    Run.exec step start (begun ++ [.tick 30000, .garbageCollect, .send 1 7 1, .accept 1 true]) =
      some s ∧ s.requests 1 = some r ∧ r.conn = some 1 ∧ r.txn = some ⟨0, 0⟩ ∧
    s.openOn 1 = none ∧ s.timesOut r 1 = false ∧ ¬ s.Right (.exec 1 true) := by
  refine ⟨_, _, rfl, rfl, rfl, rfl, rfl, rfl, fun h => ?_⟩
  have hopen := h _ 1 rfl rfl rfl ⟨0, 0⟩ rfl
  cases hopen

end Sys

end SqlAnywhere.Server.Proxy
