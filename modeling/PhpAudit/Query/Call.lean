import PhpAudit.Query.Context

/-!
# Calls

The callee, the arguments and the receiver of a call.
-/

namespace PhpAudit.SourceFile

/-- The role in which a call holds its callee. -/
def calleeField? : Kind → Option String
  | .functionCall => some "function"
  | .methodCall | .staticCall => some "name"
  | _ => none

/-- The name of the callee as written, without a leading separator. A callee that is computed has no
name. -/
def callName? (f : SourceFile) (n : Node) : Option String :=
  (calleeField? n.kind).bind fun field =>
    (f.child? n field).bind fun callee =>
      if callee.kind.isName then some (ClassName.normalize (f.text callee)) else none

/-- Whether a call is one of the listed names, up to ASCII case. -/
def isNamedAny (f : SourceFile) (n : Node) (names : List String) : Bool :=
  (f.callName? n).any fun callee =>
    names.any fun name => Text.sameAscii callee (ClassName.normalize name)

/-- Whether a call is one of `name`, up to ASCII case. -/
def isNamed (f : SourceFile) (n : Node) (name : String) : Bool :=
  f.isNamedAny n [name]

/-- The expression of an argument, without the name it is passed under. -/
def argumentValue (f : SourceFile) (argument : Node) : Node :=
  ((f.children argument).find? (fun c => !c.hasField "name")).getD argument

/-- The argument list of a call. -/
def argumentList? (f : SourceFile) (n : Node) : Option Node :=
  if n.kind.isCall then f.child? n "arguments" <|> f.firstOf? n .arguments else none

/-- The argument expressions of a call, in order. -/
def arguments (f : SourceFile) (n : Node) : List Node :=
  match f.argumentList? n with
  | none => []
  | some list =>
    ((f.children list).filter (fun c => c.kind = .argument)).map f.argumentValue

/-- The argument at a position, counted from zero. -/
def argument? (f : SourceFile) (n : Node) (position : Nat) : Option Node :=
  (f.arguments n)[position]?

/-- The object of a method call or the class of a static call. -/
def receiver? (f : SourceFile) (n : Node) : Option Node :=
  match n.kind with
  | .methodCall => f.child? n "object"
  | .staticCall => f.child? n "scope"
  | _ => none

/-- An expression in parentheses. -/
def parenthesized : String := "parenthesized_expression"

/-- Whether an expression is one link of a fluent chain. -/
def isLink (n : Node) : Bool :=
  match n.kind with
  | .methodCall | .propertyAccess | .staticCall | .staticPropertyAccess => true
  | _ => n.form == parenthesized

/-- What a link of a fluent chain is applied to. -/
def linkTarget? (f : SourceFile) (n : Node) : Option Node :=
  match n.kind with
  | .methodCall | .propertyAccess => f.child? n "object"
  | .staticCall => f.child? n "scope"
  | .staticPropertyAccess => (f.children n).head?
  | _ => if n.form == parenthesized then (f.children n).head? else none

/-- The last node on the way from `n` by `step`, unless it is one that `unfinished` says should have
led further. -/
def destination? (f : SourceFile) (step : Node → Option Node) (unfinished : Node → Bool)
    (n : Node) : Option Node :=
  ((f.trail step n).getLast?).filter (fun last => !unfinished last)

/-- The innermost target at the head of a fluent chain: the class name in `Query::for($q)->get()`, the
variable in `$this->query->where($a)->get()`. -/
def chainHead? (f : SourceFile) (n : Node) : Option Node :=
  (f.receiver? n).bind (f.destination? f.linkTarget? isLink)

end PhpAudit.SourceFile
