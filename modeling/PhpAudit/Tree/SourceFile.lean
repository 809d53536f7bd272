import PhpAudit.Namespace
import PhpAudit.Text.Blank
import PhpAudit.Text.Lines
import PhpAudit.Tree.Node

/-!
# Source files

A file is its path, its text and an arena of syntax nodes. Nodes are appended one at a time and refer
to each other by position: a node knows its parent, and a parent that is already in the arena is told
of its new child. Hence every child stands behind its parent, and a walk from parent to child ends
after at most as many steps as the arena has nodes. The walks below take that number as their fuel.
-/

namespace PhpAudit

/-- One PHP file with its syntax tree, its namespace regions and the lines on which findings are
suppressed, in increasing order. -/
structure SourceFile where
  path : String
  source : String
  nodes : Array Node := #[]
  namespaces : List Namespace := []
  suppressed : List Nat := []
  deriving Inhabited

namespace SourceFile

/-- The number of nodes. -/
def size (f : SourceFile) : Nat := f.nodes.size

/-- The node with the given id. -/
def node? (f : SourceFile) (id : Nat) : Option Node := f.nodes[id]?

/-- The first node. -/
def root? (f : SourceFile) : Option Node := f.node? 0

/-- Appends a node and enters it with its parent, if that node exists. -/
def push (f : SourceFile) (d : Draft) : SourceFile :=
  let id := f.nodes.size
  let link (nodes : Array Node) : Array Node :=
    match d.parent with
    | some p => nodes.modify p (fun n => { n with children := n.children ++ [id] })
    | none => nodes
  { f with nodes := (link f.nodes).push { d with id := id } }

/-- Changes every node, its place in the tree apart. -/
def mapNodes (f : SourceFile) (g : Node → Node) : SourceFile :=
  { f with nodes := f.nodes.map g }

/-! ## Steps from a node -/

/-- The parent of a node. -/
def parent? (f : SourceFile) (n : Node) : Option Node :=
  n.parent.bind f.node?

/-- The children of a node, in source order. -/
def children (f : SourceFile) (n : Node) : List Node :=
  n.children.filterMap f.node?

/-- The first child that plays the given role. -/
def child? (f : SourceFile) (n : Node) (field : String) : Option Node :=
  (f.children n).find? (Node.hasField field)

/-- The first child of the given kind. -/
def firstOf? (f : SourceFile) (n : Node) (kind : Kind) : Option Node :=
  (f.children n).find? (fun c => c.kind = kind)

/-- The source text that a node covers, empty if its span is not a range of characters. -/
def text (f : SourceFile) (n : Node) : String :=
  (Text.slice? f.source n.span.start n.span.stop).getD ""

/-! ## Walks -/

/-- The nodes below `n` in preorder, `n` first, and then `rest`. Where `enter` fails the walk passes by
the node and all that hangs from it. -/
def preorderOnto (f : SourceFile) (enter : Node → Bool) : Nat → Node → List Node → List Node
  | 0, _, rest => rest
  | fuel + 1, n, rest =>
    if enter n then n :: (f.children n).foldr (preorderOnto f enter fuel) rest else rest

/-- The nodes below `n` in preorder, `n` first, without the subtrees that `enter` rejects. -/
def preorder (f : SourceFile) (enter : Node → Bool) (n : Node) : List Node :=
  f.preorderOnto enter f.size n []

/-- A node and everything below it, in preorder. -/
def descendants (f : SourceFile) (n : Node) : List Node :=
  f.preorder (fun _ => true) n

/-- The nodes met on the way from `n` by `step`, `n` first. -/
def trailFrom (step : Node → Option Node) : Nat → Node → List Node
  | 0, n => [n]
  | fuel + 1, n =>
    match step n with
    | none => [n]
    | some next => n :: trailFrom step fuel next

/-- The nodes met on the way from `n` by steps within the file, `n` first. -/
def trail (f : SourceFile) (step : Node → Option Node) (n : Node) : List Node :=
  trailFrom step f.size n

/-- The nodes around `n`, from its parent up to the root. -/
def ancestors (f : SourceFile) (n : Node) : List Node :=
  (f.trail f.parent? n).tail

/-- The functions, methods and closures around a node, nearest first. -/
def enclosingFunctions (f : SourceFile) (n : Node) : List Node :=
  (f.ancestors n).filter (fun a => a.kind.isFunctionLike)

/-- The nearest function, method or closure around a node. -/
def enclosingFunction? (f : SourceFile) (n : Node) : Option Node :=
  (f.ancestors n).find? (fun a => a.kind.isFunctionLike)

/-- The nearest class, interface, trait or enum around a node. -/
def enclosingClass? (f : SourceFile) (n : Node) : Option Node :=
  (f.ancestors n).find? (fun a => a.kind.isClassLike)

/-! ## Regions and lines -/

/-- The innermost namespace region at a byte offset. -/
def namespaceAt? (f : SourceFile) (offset : Nat) : Option Namespace :=
  Namespace.innermost? f.namespaces offset

/-- Inserts a number into an increasing list, once. -/
def insertLine (line : Nat) : List Nat → List Nat
  | [] => [line]
  | l :: ls =>
    if line < l then line :: l :: ls
    else if line = l then l :: ls
    else l :: insertLine line ls

/-- Marks a line as suppressed. -/
def suppress (f : SourceFile) (line : Nat) : SourceFile :=
  { f with suppressed := insertLine line f.suppressed }

/-- The lines of a text that hold the marker, counted from one. -/
def markedLines (source marker : String) : List Nat :=
  ((Text.lines source).zipIdx 1).filterMap fun (line, number) =>
    if Text.contains line marker then some number else none

/-- The line of a text with the given number, counted from one, without outer blanks. Number zero
stands for the first line too, and a line that does not exist is empty. -/
def excerpt (f : SourceFile) (line : Nat) : String :=
  Text.trim ((Text.lines f.source)[line - 1]?.getD "")

end SourceFile

end PhpAudit
