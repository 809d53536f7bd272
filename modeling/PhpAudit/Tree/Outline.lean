import PhpAudit.Tree.SourceFile

/-!
# Outlines

A grammar delivers the syntax tree of a text as its outline: the named nodes in preorder, each with
its depth, its form, the role it plays for its parent and the bytes it covers. This module turns an
outline into the node arena of a file and gives each node the identifier it carries.
-/

namespace PhpAudit

/-- One node of an outline. -/
structure OutlineRow where
  depth : Nat
  form : String
  field : Option String
  span : Span
  deriving DecidableEq, Repr, Inhabited

/-- The nodes of a syntax tree in preorder. -/
abbrev Outline := List OutlineRow

/-- A grammar finds the outline of a source text; a text with syntax errors has none. -/
abbrev Grammar := String → Option Outline

/-- The line and column of a byte offset, given where the lines start. -/
def Place.ofOffset (starts : List Nat) (offset : Nat) : Place :=
  let before := starts.filter (· ≤ offset)
  ⟨before.length, offset - before.getLast?.getD 0 + 1⟩

namespace SourceFile

/-- Appends the rows of an outline. `path` lists the ids from the last node up to the root, so that a
row of depth `d` belongs below the last `d` of them. -/
def pushRows (starts : List Nat) (f : SourceFile) (path : List Nat) : Outline → SourceFile
  | [] => f
  | row :: rows =>
    let above := path.drop (path.length - row.depth)
    let draft : Draft :=
      { kind := .ofForm row.form, form := row.form, parent := above.head?, field := row.field,
        span := row.span, place := .ofOffset starts row.span.start }
    pushRows starts (f.push draft) (f.size :: above) rows

/-- The file with the tree that an outline describes; its nodes carry no identifiers yet. -/
def ofOutline (path source : String) (rows : Outline) : SourceFile :=
  pushRows (Text.lineStarts source) { path := path, source := source } [] rows

/-! ## Identifiers -/

/-- The text of a node, if its span is a range of characters. -/
def text? (f : SourceFile) (n : Node) : Option String :=
  Text.slice? f.source n.span.start n.span.stop

/-- The text of the child in the given role. -/
def fieldText? (f : SourceFile) (n : Node) (field : String) : Option String :=
  (f.child? n field).bind f.text?

/-- The text of the first child with one of the given forms. -/
def formText? (f : SourceFile) (n : Node) (forms : List String) : Option String :=
  ((f.children n).find? (fun c => forms.contains c.form)).bind f.text?

/-- A variable's name without its sigil. -/
def withoutSigil (s : String) : String := Text.stripStart '$' s

/-- The identifier that a node carries: the name it declares, the callee of a call, the name of a
variable, property or parameter, the target of an assignment, or its own text for names and
literals. -/
def identifier? (f : SourceFile) (n : Node) : Option String :=
  match n.kind with
  | .classDecl | .interfaceDecl | .traitDecl | .enumDecl | .method | .function
  | .methodCall | .staticCall | .argument => f.fieldText? n "name"
  | .namespaceDecl => f.fieldText? n "name" <|> f.formText? n ["namespace_name"]
  | .parameter | .propertyAccess | .staticPropertyAccess =>
    (f.fieldText? n "name").map withoutSigil
  | .var => (f.text? n).map withoutSigil
  | .functionCall => f.fieldText? n "function" <|> f.fieldText? n "name"
  | .assignment => (f.fieldText? n "left").map withoutSigil
  | .attr | .creation => f.formText? n ["name", "qualified_name"]
  | .name | .qualifiedName | .relativeScope | .useClause
  | .stringLiteral | .numberLiteral | .booleanLiteral | .nullLiteral => f.text? n
  | _ => none

/-- Gives every node the identifier it carries. -/
def withIdentifiers (f : SourceFile) : SourceFile :=
  f.mapNodes fun n => { n with value := f.identifier? n }

end SourceFile

end PhpAudit
