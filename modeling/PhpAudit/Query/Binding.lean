import PhpAudit.Query.Parameter

/-!
# Bindings of a variable

The places before a node at which a variable could have received its value, nearest first. The search
covers the enclosing function, or the whole file for code outside of functions, and leaves nested
functions alone, since their variables are others. A function that captures the variable passes the
search on to the code around it.
-/

namespace PhpAudit

/-- A place that gives a variable its value. -/
inductive Binding
  /-- An assignment to the variable or to a pattern that holds it. -/
  | assigned (site : Node) (value : Option Node)
  /-- A parameter of the enclosing function. -/
  | received (site : Node)
  /-- A loop over the elements of `source`. -/
  | looped (site source : Node)
  deriving DecidableEq, Repr

namespace Binding

/-- The node that makes the binding. -/
def site : Binding → Node
  | assigned site _ => site
  | received site => site
  | looped site _ => site

/-- The expression that the value is taken from; a parameter has none in sight. -/
def origin? : Binding → Option Node
  | assigned _ value => value
  | received _ => none
  | looped _ source => some source

end Binding

namespace SourceFile

/-- Whether a variable of the given name occurs at or below a node. -/
def mentions (f : SourceFile) (name : String) (n : Node) : Bool :=
  (f.descendants n).any (Node.isVar name)

/-- Forms of the patterns that an assignment takes apart. -/
def patternForms : List String := ["list_literal", "array_creation_expression"]

/-- Whether an assignment to `target` gives the variable its value. -/
def binds (f : SourceFile) (name : String) (target : Node) : Bool :=
  if target.kind = .var then target.value == some name
  else patternForms.contains target.form && f.mentions name target

/-- The binding of a variable by an assignment. Inside the assignment the variable still has its
former value. -/
def assignment? (f : SourceFile) (cursor : Node) (name : String) (site : Node) : Option Binding :=
  if site.span.contains cursor.span.start then none
  else
    (f.child? site "left").bind fun target =>
      if f.binds name target then some (.assigned site (f.child? site "right")) else none

/-- The binding of a variable by a loop. Its first child is what it runs over and its last one the
body; the variables stand between them. -/
def loop? (f : SourceFile) (name : String) (site : Node) : Option Binding :=
  match f.children site with
  | [] => none
  | source :: rest =>
    if rest.dropLast.any (f.mentions name) then some (.looped site source) else none

/-- The binding that a node makes for a variable read at `cursor`. -/
def binding? (f : SourceFile) (cursor : Node) (name : String) (site : Node) : Option Binding :=
  match site.kind with
  | .assignment => f.assignment? cursor name site
  | .parameter => if site.value == some name then some (.received site) else none
  | .foreachLoop => f.loop? name site
  | _ => none

/-- The nodes of a function that start before `cursor`, nested functions left out. -/
def nodesBefore (f : SourceFile) (cursor boundary : Node) : List Node :=
  f.preorder (fun n =>
    n.span.start < cursor.span.start && (n.id == boundary.id || !n.kind.isFunctionLike)) boundary

/-- The bindings of a variable before `cursor` in the function `boundary`, nearest first. -/
def bindingsIn (f : SourceFile) (name : String) (cursor boundary : Node) : List Binding :=
  (f.nodesBefore cursor boundary).reverse.filterMap (f.binding? cursor name)

/-- Whether a function reads a variable from the code around it: an arrow function does unless a
parameter has the name, a closure if the variable is on its `use` list. -/
def captures (f : SourceFile) (name : String) (function : Node) : Bool :=
  match function.kind with
  | .arrowFunction =>
    !(((f.children function).filter (fun c => c.kind = .parameters)).flatMap f.children).any
      (fun p => p.kind = .parameter && p.value == some name)
  | .closure =>
    ((f.children function).filter (fun c => c.form == "anonymous_function_use_clause")).any
      (f.mentions name)
  | _ => false

/-- The bindings before `cursor` in the functions around it, from the nearest outwards as long as the
variable is captured. -/
def bindingsThrough (f : SourceFile) (name : String) (cursor : Node) : List Node → List Binding
  | [] =>
    match f.root? with
    | some root => f.bindingsIn name cursor root
    | none => []
  | function :: outer =>
    f.bindingsIn name cursor function ++
      if f.captures name function then f.bindingsThrough name function outer else []

/-- The bindings of a variable that precede a node, nearest first. -/
def bindings (f : SourceFile) (n : Node) (name : String) : List Binding :=
  f.bindingsThrough (Text.stripStart '$' name) n (f.enclosingFunctions n)

/-- The bindings of the variable that a node reads. -/
def ownBindings (f : SourceFile) (n : Node) : Except Misuse (List Binding) := do
  let name ← f.variableName n
  return f.bindings n name

end SourceFile

end PhpAudit
