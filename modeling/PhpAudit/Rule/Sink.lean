import PhpAudit.Query.Taint
import PhpAudit.Rule.Basic

/-!
# Calls that must not receive outside input

Four rules of one shape: a call of a dangerous function or method is reported if a tainted value
reaches it.
-/

namespace PhpAudit.Sink

/-- The weakness class of injected SQL. -/
def sqlInjection : Weakness :=
  ⟨"CWE-89", "Improper Neutralization of Special Elements used in an SQL Command"⟩

/-- A remark about the call `n`, if its first argument is tainted. -/
def ifFirstTainted (cx : Context) (n : Node) (message : Node → String) : List Notice :=
  match cx.file.argument? n 0 with
  | some first => if cx.isTainted first then [⟨n, message first⟩] else []
  | none => []

/-- The name of a call in messages. -/
def callee (cx : Context) (n : Node) : String := (cx.file.callName? n).getD ""

/-! ## Deserialization -/

/-- Reports `unserialize()` on tainted data. -/
def checkUnserialize (cx : Context) (n : Node) : List Notice :=
  if cx.file.isNamed n "unserialize" then
    ifFirstTainted cx n fun first =>
      "unserialize() receives user-controlled data from `" ++ cx.file.text first ++ "`"
  else []

/-- Objects made from data that the client controls. -/
def deserialization : Rule where
  id := "php.unsafe-deserialization"
  name := "Unsafe deserialization"
  description := "unserialize() on user input can instantiate arbitrary classes " ++
    "and trigger gadget chains"
  severity := .high
  weaknesses := [⟨"CWE-502", "Deserialization of Untrusted Data"⟩]
  kinds := [.functionCall]
  check := fun cx n => .ok (checkUnserialize cx n)

/-! ## Shell commands -/

/-- Functions that run a command. -/
def shellFunctions : List String :=
  ["exec", "system", "shell_exec", "passthru", "popen", "proc_open", "pcntl_exec"]

/-- Reports commands built from tainted data. -/
def checkShell (cx : Context) (n : Node) : List Notice :=
  if cx.file.isNamedAny n shellFunctions then
    ifFirstTainted cx n fun first =>
      callee cx n ++ "() runs a command built from user input `" ++ cx.file.text first ++ "`"
  else []

/-- Commands that the client can extend. -/
def commandInjection : Rule where
  id := "php.command-injection"
  name := "Command injection"
  description := "shell execution functions must not receive user input without escapeshellarg()"
  severity := .high
  weaknesses :=
    [⟨"CWE-78", "Improper Neutralization of Special Elements used in an OS Command"⟩]
  kinds := [.functionCall]
  check := fun cx n => .ok (checkShell cx n)

/-! ## Raw SQL -/

/-- Methods that take a fragment of SQL as it is. -/
def rawMethods : List String :=
  ["whereRaw", "orWhereRaw", "havingRaw", "orHavingRaw", "orderByRaw", "selectRaw", "groupByRaw"]

/-- Classes with static access to the database. -/
def databaseFacades : List String := ["Illuminate\\Support\\Facades\\DB", "DB"]

/-- Static methods of the database that take SQL as it is. -/
def databaseMethods : List String := ["raw", "select", "statement", "unprepared"]

/-- Whether a class gives static access to the database. -/
def isDatabaseFacade (name : String) : Bool :=
  databaseFacades.any (ClassName.same · name)

/-- Whether a call takes SQL as it is. -/
def isRawQuery (cx : Context) (n : Node) : Bool :=
  match n.kind with
  | .methodCall => cx.file.isNamedAny n rawMethods
  | .staticCall =>
    cx.file.isNamedAny n rawMethods ||
      (cx.file.isNamedAny n databaseMethods && (cx.staticClass? n).any isDatabaseFacade)
  | _ => false

/-- Reports SQL built from tainted data. -/
def checkRawSql (cx : Context) (n : Node) : List Notice :=
  if isRawQuery cx n then
    ifFirstTainted cx n fun _ =>
      callee cx n ++ "() embeds user input in raw SQL; pass it as a binding"
  else []

/-- SQL that the client can extend. -/
def rawSql : Rule where
  id := "php.raw-sql"
  name := "Raw SQL with user input"
  description := "raw query fragments must use bindings instead of interpolating user input"
  severity := .high
  weaknesses := [sqlInjection]
  kinds := [.methodCall, .staticCall]
  check := fun cx n => .ok (checkRawSql cx n)

/-! ## Allow lists of a query builder -/

/-- The query builder whose allow lists are watched. -/
def queryBuilder : String := "Spatie\\QueryBuilder\\QueryBuilder"

/-- Methods whose arguments list what the client may sort, filter, select or include. -/
def allowListMethods : List String :=
  ["allowedSorts", "allowedFilters", "allowedFields", "allowedIncludes", "defaultSort",
    "defaultSorts"]

/-- Reports allow lists built from tainted data. -/
def checkAllowList (cx : Context) (n : Node) : List Notice :=
  if cx.file.isNamedAny n allowListMethods then
    match (cx.file.chainHead? n).bind cx.classOf? with
    | some name =>
      if cx.classes.isA name queryBuilder && (cx.file.arguments n).any cx.isTainted then
        [⟨n, callee cx n ++ "() on " ++ name ++
          " is built from request data; list the allowed columns explicitly"⟩]
      else []
    | none => []
  else []

/-- Allow lists that the client can extend. -/
def queryBuilderSort : Rule where
  id := "php.query-builder-user-sort"
  name := "User-controlled query builder allow list"
  description := "allowedSorts/allowedFilters and friends must list columns explicitly, " ++
    "not take them from the request"
  severity := .medium
  weaknesses := [sqlInjection]
  kinds := [.methodCall]
  check := fun cx n => .ok (checkAllowList cx n)

end PhpAudit.Sink
