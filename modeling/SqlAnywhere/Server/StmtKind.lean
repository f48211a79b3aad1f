import SqlAnywhere.Server.Auth

/-!
# Statements and their kinds

The parse tree of a statement, as far as its kind depends on it, and the classification `StmtKind::kind` on which authorisation rests.

* `Cmd.kind`, `pragmaKind` — the classification of the source
-/

namespace SqlAnywhere.Server

structure QualifiedName where
  dbName : Option String
  name : String
  deriving DecidableEq

inductive Stmt
  | alterTable (tbl : QualifiedName)
  | analyze
  /-- the identifier, when the expression is one -/
  | attach (expr : Option String)
  | begin_
  | commit
  /-- not a statement for the parser of the server, only for the engine -/
  | createFunction (lang : String)
  | createIndex
  | createTable (temporary : Bool) (tbl : QualifiedName)
  | createTrigger (temporary : Bool)
  | createView (temporary : Bool)
  | createVirtualTable (tbl : QualifiedName)
  | delete (tbl : QualifiedName)
  | detach
  /-- not a statement for the parser of the server, only for the engine -/
  | dropFunction
  | dropIndex
  | dropTable (tbl : QualifiedName)
  | dropTrigger
  | dropView
  | insert (tbl : QualifiedName)
  | pragma (name : QualifiedName) (body : Option String)
  | reindex
  | release (name : String)
  | rollback (savepoint : Option String)
  | savepoint (name : String)
  | select
  | update (tbl : QualifiedName)
  | vacuum
  deriving DecidableEq

inductive Cmd
  | explain (stmt : Stmt)
  | explainQueryPlan (stmt : Stmt)
  | stmt (stmt : Stmt)
  deriving DecidableEq

/-- The statement that is compiled for a command. -/
def Cmd.compiled : Cmd → Stmt
  | .explain s | .explainQueryPlan s | .stmt s => s

def isTemp (name : QualifiedName) : Bool := name.dbName = some "TEMP"

def isReservedTbl (name : QualifiedName) : Bool :=
  let n := name.name.toLower
  n = "_litestream_seq" || n = "_litestream_lock" || n = "sqlanywhere_wasm_func_table"

def writeIfNotReserved (name : QualifiedName) : Option StmtKind :=
  if !isReservedTbl name then some .write else none

def ddlIfNotReserved (name : QualifiedName) : Option StmtKind :=
  if !isReservedTbl name then some .ddl else none

/-- Pragmas that only read. -/
def readPragmas : List String :=
  ["table_list", "index_list", "table_info", "table_xinfo", "index_info", "index_xinfo",
    "pragma_list", "compile_options", "database_list", "function_list", "module_list",
    -- effectively readonly for connections that already created a database
    "encoding"]

/-- Pragmas that a primary always serves. -/
def primaryPragmas : List String :=
  ["defer_foreign_keys", "foreign_keys", "foreign_key_list", "foreign_key_check", "collation_list",
    "data_version", "freelist_count", "integrity_check", "legacy_file_format", "page_count",
    "quick_check", "stats", "user_version"]

/-- Pragmas that a primary serves without a body. -/
def bodilessPragmas : List String :=
  ["analysis_limit", "application_id", "auto_vacuum", "automatic_index", "busy_timeout",
    "cache_size", "cache_spill", "cell_size_check", "checkpoint_fullfsync", "fullfsync",
    "hard_heap_limit", "journal_mode", "journal_size_limit", "legacy_alter_table", "locking_mode",
    "max_page_count", "mmap_size", "page_size", "query_only", "read_uncommitted",
    "recursive_triggers", "reverse_unordered_selects", "secure_delete", "soft_heap_limit",
    "synchronous", "temp_store", "threads", "trusted_schema", "wal_autocheckpoint"]

def pragmaKind (name : QualifiedName) (body : Option String) : Option StmtKind :=
  let name := name.name.toLower
  if name ∈ readPragmas then some .read
  else if name = "schema_version" ∧ body.isNone then some .read
  else if name ∈ primaryPragmas then some .write
  else if name ∈ bodilessPragmas then
    match body with
    | some _ => none
    | none => some .write
  else none

/-- The name of an attached namespace without its quotes; a name that does not end in one is taken as
it stands. -/
def stripQuotes (name : String) : String :=
  let inner := if name.startsWith "\"" then (name.drop 1).toString else name
  if inner.endsWith "\"" then (inner.dropEnd 1).toString else name

/-- `NamespaceName::from_string` -/
def namespaceName (name : String) : Option NamespaceName :=
  if name.isEmpty then none else some name

def Cmd.kind : Cmd → Option StmtKind
  | .explain (.pragma name body) => pragmaKind name body
  -- these two are no statements for the parser, with or without an EXPLAIN
  | .explain (.createFunction _) | .explainQueryPlan (.createFunction _) => none
  | .explain .dropFunction | .explainQueryPlan .dropFunction => none
  | .explain _ => some .read
  | .explainQueryPlan _ => some .read
  | .stmt .begin_ => some .txnBegin
  | .stmt .commit | .stmt (.rollback none) => some .txnEnd
  | .stmt (.createVirtualTable tbl) | .stmt (.createTable false tbl) =>
    if !isTemp tbl then some .ddl else none
  | .stmt (.insert tbl) | .stmt (.update tbl) => writeIfNotReserved tbl
  | .stmt (.delete tbl) => writeIfNotReserved tbl
  | .stmt (.dropTable tbl) => ddlIfNotReserved tbl
  | .stmt (.alterTable tbl) => ddlIfNotReserved tbl
  | .stmt .dropIndex | .stmt .dropTrigger | .stmt (.createTrigger false)
  | .stmt .createIndex => some .ddl
  | .stmt .select => some .read
  | .stmt (.pragma name body) => pragmaKind name body
  -- Creating regular views is OK, temporary views are bound to a connection and thus disallowed.
  | .stmt (.createView false) => some .ddl
  | .stmt .dropView => some .ddl
  | .stmt (.savepoint _) => some .savepoint
  | .stmt (.release _) | .stmt (.rollback (some _)) => some .release
  | .stmt (.attach (some name)) => (namespaceName (stripQuotes name)).map .attach
  | .stmt .detach => some .detach
  | .stmt .reindex => some .write
  | .stmt _ => none

end SqlAnywhere.Server
