import PhpAudit.Span
import PhpAudit.Tree.Kind

/-!
# Syntax nodes
-/

namespace PhpAudit

/-- What is known about a node before it joins a file. `form` is the grammar's name for the node and
`field` the role it plays for its parent. -/
structure Draft where
  kind : Kind
  form : String
  parent : Option Nat := none
  field : Option String := none
  value : Option String := none
  resolved : Option String := none
  span : Span
  place : Place
  deriving DecidableEq, Repr, Inhabited

/-- A node of a file. `value` is the identifier it carries, `resolved` the full class name it
declares or refers to, and `children` are listed in source order. -/
structure Node extends Draft where
  id : Nat
  children : List Nat := []
  deriving DecidableEq, Repr, Inhabited

namespace Node

/-- The full name if there is one, otherwise the written one. -/
def name? (n : Node) : Option String :=
  n.resolved <|> n.value

/-- The byte at which the node starts. -/
def start (n : Node) : Nat := n.span.start

/-- The line on which the node starts. -/
def line (n : Node) : Nat := n.place.line

/-- Whether the node plays the given role for its parent. -/
def hasField (field : String) (n : Node) : Bool :=
  n.field == some field

/-- Whether the node is a variable with the given name. -/
def isVar (name : String) (n : Node) : Bool :=
  n.kind = .var && n.value == some name

end Node

end PhpAudit
