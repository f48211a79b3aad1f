import Mathlib.Data.List.Basic

/-!
# Rights on namespaces

What a request may do, by the kinds of its statements: `check_program_auth` and
`check_describe_auth`, over the rights that a client was authenticated with.

* `checkProgramAuth`, `checkDescribeAuth` — the checks of the source
* `permitted` — the right that a statement of a kind takes on a namespace
* `permitted_of_checkProgramAuth` — a program that passes has the rights it takes
-/

namespace SqlAnywhere.Server

abbrev NamespaceName := String

/-- Statements by category, `StmtKind`. -/
inductive StmtKind
  | txnBegin
  | txnEnd
  | read
  | write
  | savepoint
  | release
  | attach (ns : NamespaceName)
  | detach
  | ddl
  deriving DecidableEq

inductive Permission
  | read
  | write
  | attachRead
  deriving DecidableEq

/-- As it is printed in messages. -/
def Permission.debug : Permission → String
  | .read => "Read"
  | .write => "Write"
  | .attachRead => "AttachRead"

/-- `Permission::has_right`, for legacy tokens. -/
def Permission.hasRight : Permission → Permission → Bool
  | .read, .read => true
  | .attachRead, .attachRead => true
  | .write, .write => true
  | .read, .write => false
  | .read, .attachRead => false
  | .write, .read => true
  | .write, .attachRead => false
  | .attachRead, .read => true
  | .attachRead, .write => false

structure Scopes where
  namespaces : Option (List NamespaceName)
  tags : Option (List String)
  deriving DecidableEq

/-- `gid` is the group id of the server, the only tag that is supported. -/
def Scopes.contains (gid : Option String) (scopes : Scopes) (name : NamespaceName) : Bool :=
  scopes.namespaces.any (fun names => names.contains name) ||
    match gid, scopes.tags with
    | some gid, some tags => tags.contains gid
    | _, _ => false

structure Authorized where
  readOnly : Option Scopes
  readWrite : Option Scopes
  readOnlyAttach : Option Scopes
  readWriteAttach : Option Scopes
  ddlOverride : Option Scopes
  deriving DecidableEq

structure LegacyAuth where
  namespace_ : Option NamespaceName
  perm : Permission
  deriving DecidableEq

inductive Authenticated
  | anonymous
  | authorized (a : Authorized)
  | legacy (auth : LegacyAuth)
  | fullAccess
  deriving DecidableEq

structure Forbidden where
  message : String

/-- What `check_program_auth` reads of a `DatabaseConfig`. -/
structure AuthConfig where
  sharedSchemaName : Option NamespaceName
  allowAttach : Bool

/-- Who sends a request, and to which namespace. -/
structure RequestContext where
  auth : Authenticated
  ns : NamespaceName
  deriving DecidableEq

section

variable (gid : Option String)

namespace Authorized

def canWriteNs (a : Authorized) (name : NamespaceName) : Bool :=
  a.readWrite.any (fun scope => scope.contains gid name) ||
    a.readWriteAttach.any (fun scope => scope.contains gid name) ||
    -- ddl override implies write
    a.ddlOverride.any (fun scope => scope.contains gid name)

def canReadNs (a : Authorized) (name : NamespaceName) : Bool :=
  a.canWriteNs gid name || a.readOnly.any (fun scope => scope.contains gid name) ||
    a.readOnlyAttach.any (fun scope => scope.contains gid name)

def canAttachNs (a : Authorized) (name : NamespaceName) : Bool :=
  a.readOnlyAttach.any (fun scope => scope.contains gid name) ||
    a.readWriteAttach.any (fun scope => scope.contains gid name)

def hasRight (a : Authorized) (name : NamespaceName) : Permission → Bool
  | .read => a.canReadNs gid name
  | .write => a.canWriteNs gid name
  | .attachRead => a.canAttachNs gid name

def ddlPermitted (a : Authorized) (name : NamespaceName) : Bool :=
  a.ddlOverride.any (fun scope => scope.contains gid name)

end Authorized

namespace Authenticated

def isNamespaceAuthorized (ns : NamespaceName) : Authenticated → Bool
  | .anonymous => false
  | .authorized a => a.hasRight gid ns .read
  | .fullAccess => true
  | .legacy auth => auth.namespace_.isNone || auth.namespace_.any (fun n => n = ns)

/-- The message of a refusal. -/
def noPermission (ns : NamespaceName) (perm : Permission) : Forbidden :=
  ⟨"Current session doesn't not have " ++ perm.debug ++ " permission to namespace " ++ ns⟩

def hasRight (auth : Authenticated) (ns : NamespaceName) (perm : Permission) :
    Except Forbidden Unit :=
  match auth with
  | .anonymous => .error ⟨"anonymous access not allowed"⟩
  | .authorized a => if a.hasRight gid ns perm then .ok () else .error (noPermission ns perm)
  | .fullAccess => .ok ()
  | .legacy token =>
    if auth.isNamespaceAuthorized gid ns && token.perm.hasRight perm then .ok ()
    else .error (noPermission ns perm)

def ddlPermitted (auth : Authenticated) (ns : NamespaceName) : Except Forbidden Unit :=
  let refused := .error ⟨"DDL statements not permitted on namespace " ++ ns⟩
  match auth with
  | .authorized a => if a.ddlPermitted gid ns then .ok () else refused
  | .fullAccess => .ok ()
  | _ => refused

end Authenticated

/-- The check of one statement. -/
def checkKind (store : NamespaceName → AuthConfig) (ctx : RequestContext) (config : AuthConfig) :
    StmtKind → Except Forbidden Unit
  | .txnBegin | .txnEnd | .read | .savepoint | .release => ctx.auth.hasRight gid ctx.ns .read
  | .ddl =>
    if config.sharedSchemaName.isSome then ctx.auth.ddlPermitted gid ctx.ns
    else ctx.auth.hasRight gid ctx.ns .write
  | .write => ctx.auth.hasRight gid ctx.ns .write
  | .attach ns => do
    ctx.auth.hasRight gid ns .attachRead
    if (store ns).allowAttach then .ok ()
    else .error ⟨"Namespace " ++ "\x60" ++ ns ++ "\x60 doesn't allow attach"⟩
  | .detach => .ok ()

/-- `check_program_auth`, for a program with statements of these kinds on a connection whose namespace
has the configuration `config`; `store` has the configurations of all namespaces. -/
def checkProgramAuth (store : NamespaceName → AuthConfig) (ctx : RequestContext)
    (kinds : List StmtKind) (config : AuthConfig) : Except Forbidden Unit :=
  kinds.forM (checkKind gid store ctx config)

def checkDescribeAuth (ctx : RequestContext) : Except Forbidden Unit :=
  ctx.auth.hasRight gid ctx.ns .read

/-! ### What the checks stand for -/

/-- The client may run a statement of the kind on the database of `ns`.  A statement that attaches a
database takes the right on that one, and detaching takes none. -/
def permitted (auth : Authenticated) (ns : NamespaceName) : StmtKind → Prop
  | .txnBegin | .txnEnd | .read | .savepoint | .release => auth.hasRight gid ns .read = .ok ()
  | .ddl | .write => auth.hasRight gid ns .write = .ok ()
  | .attach other => auth.hasRight gid other .attachRead = .ok ()
  | .detach => True

variable {gid} {store : NamespaceName → AuthConfig} {ctx : RequestContext} {config : AuthConfig}

theorem hasRight_of_ddlPermitted {auth : Authenticated} {ns : NamespaceName}
    (h : auth.ddlPermitted gid ns = .ok ()) : auth.hasRight gid ns .write = .ok () := by
  cases auth with
  | anonymous | legacy => cases h
  | fullAccess => rfl
  | authorized a =>
    simp only [Authenticated.ddlPermitted] at h
    split_ifs at h with hddl
    have hwrite : a.hasRight gid ns .write = true := by
      simp only [Authorized.ddlPermitted] at hddl
      simp [Authorized.hasRight, Authorized.canWriteNs, hddl]
    simp only [Authenticated.hasRight, hwrite, if_true]

theorem permitted_of_checkKind {kind : StmtKind} (h : checkKind gid store ctx config kind = .ok ()) :
    permitted gid ctx.auth ctx.ns kind := by
  cases kind with
  | txnBegin | txnEnd | read | savepoint | release | write => exact h
  | detach => trivial
  | ddl =>
    simp only [checkKind] at h
    split_ifs at h
    · exact hasRight_of_ddlPermitted h
    · exact h
  | attach ns =>
    simp only [checkKind] at h
    cases hright : ctx.auth.hasRight gid ns .attachRead with
    | ok _ => exact hright
    | error e =>
      rw [hright] at h
      cases h

/-- **A program that passes the check** has the rights that its statements take on the namespace of
the request. -/
theorem permitted_of_checkProgramAuth {kinds : List StmtKind}
    (h : checkProgramAuth gid store ctx kinds config = .ok ()) :
    ∀ kind ∈ kinds, permitted gid ctx.auth ctx.ns kind := by
  induction kinds with
  | nil => exact fun _ hk => absurd hk List.not_mem_nil
  | cons k kinds ih =>
    change (checkKind gid store ctx config k >>= fun _ =>
      checkProgramAuth gid store ctx kinds config) = .ok () at h
    cases hk : checkKind gid store ctx config k with
    | error e =>
      rw [hk] at h
      cases h
    | ok _ =>
      rw [hk] at h
      intro kind hkind
      rcases List.mem_cons.1 hkind with rfl | hmem
      · exact permitted_of_checkKind hk
      · exact ih h kind hmem

end

end SqlAnywhere.Server
