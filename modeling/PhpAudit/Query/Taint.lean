import PhpAudit.Query.Request

/-!
# Outside input and where it flows

An expression is tainted if its value may come from outside the program: from a superglobal, an input
function or the current request, directly or through the parts it is made of and the bindings of its
variables. `parts` and `origins` say where a value comes from in one step; the search follows them
depth first, visits no node twice and follows at most `maxOriginHops` bindings.
-/

namespace PhpAudit

/-- Superglobals that the request or the environment of the process fills. -/
def superglobals : List String :=
  ["_GET", "_POST", "_REQUEST", "_COOKIE", "_SERVER", "_ENV", "_FILES"]

/-- Functions that return data from outside. -/
def inputFunctions : List String :=
  ["getenv", "filter_input", "filter_input_array", "getallheaders", "apache_request_headers"]

/-- Functions whose result is made of their arguments. -/
def carrierFunctions : List String :=
  ["base64_decode", "gzinflate", "gzuncompress", "hex2bin", "implode", "join", "ltrim",
    "rawurldecode", "rtrim", "sprintf", "str_replace", "stripslashes", "strrev", "strtolower",
    "strtoupper", "substr", "trim", "urldecode", "vsprintf"]

/-- Casts that leave nothing an attacker controls. -/
def scalarCasts : List String := ["int", "integer", "float", "double", "bool", "boolean"]

/-- Forms whose value is made of all their parts. -/
def transparentForms : List String :=
  ["parenthesized_expression", "array_creation_expression", "array_element_initializer",
    "string_value", "heredoc_body", "expression_statement", "reference_modifier", "by_ref"]

/-- How many bindings are followed from an expression to its sources. -/
def maxOriginHops : Nat := 8

namespace SourceFile

/-! ## Sources -/

/-- The value that a subscript takes an element of. -/
def subscriptBase? (f : SourceFile) (n : Node) : Option Node :=
  if n.kind = .subscript then (f.children n).head? else none

/-- Whether a function call returns data from outside. -/
def callsInput (f : SourceFile) (n : Node) : Bool :=
  f.isNamedAny n inputFunctions ||
    (f.isNamed n "file_get_contents" &&
      (f.argument? n 0).any
        (fun a => a.kind = .stringLiteral && Text.contains (f.text a) "php://input"))

/-- Whether a node reads input of the process: a superglobal or an element of one, or the result of an
input function. -/
def readsInput (f : SourceFile) (n : Node) : Bool :=
  ((f.trail f.subscriptBase? n).getLast?).any fun base =>
    match base.kind with
    | .var => base.value.any superglobals.contains
    | .functionCall => f.callsInput base
    | _ => false

/-! ## Steps -/

/-- The children of a node, comments left out. -/
def codeChildren (f : SourceFile) (n : Node) : List Node :=
  (f.children n).filter (fun c => c.kind ≠ .comment)

/-- The type in front of a cast, in lower case. -/
def castType (f : SourceFile) (n : Node) : String :=
  let inner := (Text.stripStart '(' (f.text n)).toList.takeWhile (· != ')')
  Text.asciiLower (Text.trim (String.ofList inner))

/-- The operator between the operands of a binary expression. -/
def operator? (f : SourceFile) (n : Node) : Option String :=
  (f.child? n "left").bind fun left =>
    (f.child? n "right").bind fun right =>
      (Text.slice? f.source left.span.stop right.span.start).map Text.trim

/-- The parts that the value of a node is made of. -/
def parts (f : SourceFile) (n : Node) : List Node :=
  match n.kind with
  | .subscript => (f.children n).head?.toList
  | .assignment => (f.child? n "right").toList
  | .stringLiteral | .argument => f.codeChildren n
  | .functionCall => if f.isNamedAny n carrierFunctions then f.arguments n else []
  | .other =>
    match n.form with
    | "cast_expression" => if scalarCasts.contains (f.castType n) then [] else f.codeChildren n
    | "binary_expression" =>
      if f.operator? n == some "." || f.operator? n == some "??" then f.codeChildren n else []
    | "conditional_expression" => (f.children n).filter (fun c => !c.hasField "condition")
    | form => if transparentForms.contains form then f.codeChildren n else []
  | _ => []

/-- The expressions that a variable may have its value from. -/
def origins (f : SourceFile) (n : Node) : List Node :=
  if n.kind = .var && n.value != some "this" then
    (f.bindings n (n.value.getD "")).filterMap Binding.origin?
  else []

end SourceFile

namespace Context

/-- Whether a node itself reads data from outside. -/
def isSource (cx : Context) (n : Node) : Bool :=
  cx.file.readsInput n || cx.readsRequest n

/-! ## The search -/

/-- Tries the nodes of a list in turn until one answers yes; what has been `seen` goes from one to the
next. -/
def firstHit {σ : Type} (visit : Node → σ → Bool × σ) : List Node → σ → Bool × σ
  | [], seen => (false, seen)
  | n :: ns, seen =>
    match visit n seen with
    | (true, seen) => (true, seen)
    | (false, seen) => firstHit visit ns seen

/-- Looks for a source behind `n`, following at most `hops` bindings and passing by the nodes that
have been `seen`. Returns the nodes seen by then. -/
def search (cx : Context) : Nat → Nat → Node → List Nat → Bool × List Nat
  | 0, _, _, seen => (false, seen)
  | fuel + 1, hops, n, seen =>
    if seen.contains n.id then (false, seen)
    else if cx.isSource n then (true, n.id :: seen)
    else if n.kind = .var then
      match hops with
      | 0 => (false, n.id :: seen)
      | hops + 1 => firstHit (cx.search fuel hops) (cx.file.origins n) (n.id :: seen)
    else firstHit (cx.search fuel hops) (cx.file.parts n) (n.id :: seen)

/-- Whether the value of an expression may come from outside the program. Each level of the search
marks a node that was not seen before, so the number of nodes bounds its depth. -/
def isTainted (cx : Context) (n : Node) : Bool :=
  (cx.search (cx.file.size + 1) maxOriginHops n []).1

end Context

end PhpAudit
