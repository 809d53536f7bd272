import PhpAudit.Hierarchy

/-!
# Questions about a node

Questions are asked about a node of a file, seen in the context of the project's class hierarchy. Most
of them have an answer at every node, be it an empty one. A question that makes no sense for the node
at hand, such as the name of a parameter asked of a call, is a misuse.
-/

namespace PhpAudit

/-- A file as part of a project. -/
structure Context where
  file : SourceFile
  classes : Hierarchy
  deriving Inhabited

/-- A question asked at the wrong node. -/
inductive Misuse
  | unexpectedKind (expected : String) (found : Kind) (line : Nat)
  | missingNode (id : Nat)
  deriving DecidableEq, Repr

/-- What is said about a misuse. -/
def Misuse.message : Misuse → String
  | unexpectedKind expected found line =>
    "expected " ++ expected ++ " node, found " ++ found.label ++ " at line " ++ Nat.repr line
  | missingNode id => "node " ++ Nat.repr id ++ " does not exist in this file"

/-- The node with the given id, which has to exist. -/
def SourceFile.node (f : SourceFile) (id : Nat) : Except Misuse Node :=
  match f.node? id with
  | some n => .ok n
  | none => .error (.missingNode id)

/-- Succeeds on nodes of the given kind only. -/
def Node.expect (n : Node) (kind : Kind) (expected : String) : Except Misuse Unit :=
  if n.kind = kind then .ok () else .error (.unexpectedKind expected n.kind n.line)

end PhpAudit
