import PhpAudit.Json.Value
import PhpAudit.Tree.SourceFile

/-!
# Exports of a syntax tree

A tree can be drawn as a DOT graph and written as a JSON document.
-/

namespace PhpAudit

/-- The label of a node in a drawing, with the quotes of its value escaped. -/
def Node.dotLabel (n : Node) : String :=
  match n.value with
  | some v => n.form ++ ":" ++ Text.replace '"' "\\\"" v
  | none => n.form

/-- The statements for a node and for its links to its children. -/
def Node.dotLines (n : Node) : String :=
  let id := Nat.repr n.id
  "    " ++ id ++ " [label=\"" ++ n.dotLabel ++ "\"];\n" ++
    String.join (n.children.map fun c => "    " ++ id ++ " -> " ++ Nat.repr c ++ ";\n")

/-- The tree as a DOT graph. -/
def SourceFile.toDot (f : SourceFile) : String :=
  "digraph AST \x7b\n" ++ String.join (f.nodes.toList.map Node.dotLines) ++ "\x7d"

/-- A span as a document. -/
def Span.toJson (s : Span) : Json :=
  .obj [("start", .nat s.start), ("end", .nat s.stop)]

/-- A line and column as a document. -/
def Place.toJson (p : Place) : Json :=
  .obj [("line", .nat p.line), ("column", .nat p.column)]

/-- An import as a document. -/
def Import.toJson (i : Import) : Json :=
  .obj [("alias", .str i.short), ("target", .str i.target)]

/-- A namespace region as a document. -/
def Namespace.toJson (ns : Namespace) : Json :=
  .obj [("name", .str ns.name), ("span", ns.span.toJson),
    ("imports", .arr (ns.imports.map Import.toJson))]

/-- A node as a document. -/
def Node.toJson (n : Node) : Json :=
  .obj [("id", .nat n.id), ("parent", .ofOption .nat n.parent), ("kind", .str n.kind.label),
    ("syntax", .str n.form), ("field", .ofOption .str n.field), ("value", .ofOption .str n.value),
    ("resolved", .ofOption .str n.resolved), ("children", .nats n.children),
    ("span", n.span.toJson), ("meta", n.place.toJson)]

/-- A file as a document. -/
def SourceFile.toJson (f : SourceFile) : Json :=
  .obj [("file_path", .str f.path), ("file_type", .str "php"), ("source", .str f.source),
    ("index", .arr (f.nodes.toList.map Node.toJson)),
    ("namespaces", .arr (f.namespaces.map Namespace.toJson)), ("suppressed", .nats f.suppressed)]

end PhpAudit
