import PhpAudit.Query.Binding
import PhpAudit.Query.Call

/-!
# The class of an expression

The full name of a class written at a node, and the class of the value of an expression where the
source makes it evident: names, `new` expressions, static calls (taken to return their own class),
`$this`, typed parameters, and variables assigned from any of these.
-/

namespace PhpAudit

/-- How many bindings are followed to find the class of a variable. -/
def maxTypeHops : Nat := 8

namespace Context

/-- The class around a node, by its full name where it has one. -/
def enclosingClassName? (cx : Context) (n : Node) : Option String :=
  (cx.file.enclosingClass? n).bind (·.name?)

/-- The first name in the `extends` clause of a class. -/
def writtenParent? (cx : Context) (decl : Node) : Option String :=
  (cx.file.firstOf? decl .baseClause).bind fun base =>
    ((cx.file.children base).find? (fun c => c.kind.isName)).map fun c =>
      c.resolved.getD (ClassName.normalize (cx.file.text c))

/-- The parent of the class around a node, as the project declares it or else as it is written. -/
def parentClass? (cx : Context) (n : Node) : Option String :=
  (cx.file.enclosingClass? n).bind fun decl =>
    decl.name?.bind fun name =>
      cx.classes.parentOf? name <|> cx.writtenParent? decl

/-- The full name of a class name written at a node. `self`, `static` and `parent` speak of the class
around it; a variable names no class. -/
def resolve? (cx : Context) (n : Node) (written : String) : Option String :=
  let name := Text.trim written
  if Text.sameAscii name "self" || Text.sameAscii name "static" then cx.enclosingClassName? n
  else if Text.sameAscii name "parent" then cx.parentClass? n
  else if name.isEmpty || Text.startsWith name "$" then none
  else some (Namespace.resolve name (cx.file.namespaceAt? n.span.start))

end Context

namespace SourceFile

/-- Whether an expression has the class of one of its parts. -/
def isWrapper (n : Node) : Bool :=
  match n.kind with
  | .creation | .staticCall | .assignment => true
  | .other => n.form == parenthesized
  | _ => false

/-- The part of an expression that has its class. -/
def wrapped? (f : SourceFile) (n : Node) : Option Node :=
  match n.kind with
  | .creation =>
    (f.children n).find? (fun c => c.kind.isName || c.kind = .relativeScope)
  | .staticCall => f.child? n "scope"
  | .assignment => f.child? n "right"
  | .other => if n.form == parenthesized then (f.children n).head? else none
  | _ => none

/-- The part of an expression that decides its class. -/
def typeSource? (f : SourceFile) (n : Node) : Option Node :=
  f.destination? f.wrapped? isWrapper n

end SourceFile

namespace Context

/-- Whether the class of a node has to be looked for in the bindings of a variable. -/
def isFreeVariable (n : Node) : Bool :=
  n.kind = .var && n.value.isSome && n.value != some "this"

/-- The class of an expression that needs no binding. -/
def evidentClass? (cx : Context) (n : Node) : Option String :=
  match n.kind with
  | .name | .qualifiedName => n.resolved <|> cx.resolve? n (cx.file.text n)
  | .relativeScope => cx.resolve? n (cx.file.text n)
  | .parameter => cx.file.declaredType? n
  | .var => if n.value == some "this" then cx.enclosingClassName? n else none
  | _ => none

/-- The node that a binding offers for the class of its variable. -/
def bindingSource? : Binding → Option Node
  | .received site => some site
  | .assigned _ value => value
  | .looped _ _ => none

/-- The class of an expression, following at most `hops` bindings. -/
def classWithin (cx : Context) : Nat → Node → Option String
  | hops, n =>
    (cx.file.typeSource? n).bind fun source =>
      if isFreeVariable source then
        match hops with
        | 0 => none
        | hops + 1 =>
          (cx.file.bindings source (source.value.getD "")).findSome? fun binding =>
            (bindingSource? binding).bind (cx.classWithin hops)
      else cx.evidentClass? source

/-- The class of the value of an expression, where it is evident. -/
def classOf? (cx : Context) (n : Node) : Option String :=
  cx.classWithin maxTypeHops n

/-- The class that a static call is made on. -/
def staticClass? (cx : Context) (n : Node) : Option String :=
  if n.kind = .staticCall then (cx.file.receiver? n).bind cx.classOf? else none

end Context

end PhpAudit
