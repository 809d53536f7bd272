import PhpAudit.Tree.Outline

/-!
# Namespace regions and full class names of a file

The regions of a file are the whole text, which belongs to no namespace, and one stretch per
namespace declaration: its braces, or everything up to the next declaration. Each `use` declaration
adds its class aliases to the innermost region around it. With the regions known, every class
declaration and every name in the position of a class gets its full name.
-/

namespace PhpAudit

namespace SourceFile

/-- Whether a namespace declaration has a body in braces. -/
def isBraced (f : SourceFile) (decl : Node) : Bool :=
  match f.child? decl "body" with
  | some body => body.kind = .block
  | none => false

/-- The regions of a list of namespace declarations. A declaration without braces reaches to the next
one, or to the end of the file. -/
def declaredRegions (f : SourceFile) : List Node → List Namespace
  | [] => []
  | decl :: decls =>
    let stop :=
      if f.isBraced decl then decl.span.stop
      else
        match decls with
        | [] => f.source.utf8ByteSize
        | next :: _ => next.span.start
    Namespace.named (decl.value.getD "") ⟨decl.span.start, stop⟩ :: declaredRegions f decls

/-- The region without a name that covers a whole file. -/
def globalRegion (f : SourceFile) : Namespace :=
  Namespace.named "" ⟨0, f.source.utf8ByteSize⟩

/-- The nodes of one kind, in the order of their ids. -/
def nodesOf (f : SourceFile) (kind : Kind) : List Node :=
  f.nodes.toList.filter (fun n => n.kind = kind)

/-- The regions of a file before imports are entered. -/
def regions (f : SourceFile) : List Namespace :=
  f.globalRegion :: f.declaredRegions (f.nodesOf .namespaceDecl)

/-- Whether a `use` declaration is about functions or constants. -/
def importsNoClass (f : SourceFile) (decl : Node) : Bool :=
  let head := Text.asciiLower (Text.trimStart (f.text decl))
  Text.startsWith head "use function" || Text.startsWith head "use const"

/-- The class aliases that a `use` declaration introduces. -/
def importsOf (f : SourceFile) (decl : Node) : List Import :=
  let group := ((f.children decl).find? (fun c => c.form == "namespace_name")).map f.text
  ((f.descendants decl).filter (fun n => n.kind = .useClause)).filterMap fun clause =>
    Import.ofClause? (f.text clause) group

/-- The class aliases of a file, each with the offset of its declaration. -/
def imports (f : SourceFile) : List (Nat × Import) :=
  ((f.nodesOf .useDecl).filter (fun decl => !f.importsNoClass decl)).flatMap fun decl =>
    (f.importsOf decl).map (decl.span.start, ·)

/-- Enters each import with the innermost region at its offset. -/
def attach (regions : List Namespace) (imports : List (Nat × Import)) : List Namespace :=
  let spans := regions.map (·.span)
  regions.zipIdx.map fun (region, i) =>
    { region with
      imports := (imports.filter (fun p => Namespace.innermostIdx? spans p.1 == some i)).map (·.2) }

/-- Finds the namespace regions of a file. -/
def withNamespaces (f : SourceFile) : SourceFile :=
  { f with namespaces := attach f.regions f.imports }

/-! ## Full names -/

/-- Forms whose direct names are types. -/
def typeForms : List String := ["optional_type", "union_type", "intersection_type", "type_list"]

/-- Whether a name stands where a class is expected. -/
def isClassReference (f : SourceFile) (n : Node) : Bool :=
  match f.parent? n with
  | none => false
  | some p =>
    match p.kind with
    | .baseClause | .interfaceClause | .namedType | .creation => true
    | .attr | .classConstantAccess | .staticPropertyAccess => p.children.head? == some n.id
    | .staticCall => n.hasField "scope"
    | .parameter | .method | .function => n.hasField "type" || n.hasField "return_type"
    | _ => typeForms.contains p.form

/-- The full class name that a node declares or refers to. -/
def fullName? (f : SourceFile) (n : Node) : Option String :=
  let region := f.namespaceAt? n.span.start
  if n.kind.isClassLike then
    n.value.map (ClassName.qualify ((region.map (·.name)).getD "") ·)
  else if n.kind.isName && f.isClassReference n then
    let written := f.text n
    if ClassName.isRelative written || ClassName.isBuiltinType written then none
    else some (Namespace.resolve written region)
  else none

/-- Gives class declarations and class references their full names. -/
def withFullNames (f : SourceFile) : SourceFile :=
  f.mapNodes fun n => { n with resolved := f.fullName? n }

/-- The complete file of a text and its outline. -/
def ofParts (path source : String) (rows : Outline) : SourceFile :=
  (ofOutline path source rows).withIdentifiers.withNamespaces.withFullNames

end SourceFile

/-- A text that the grammar rejects, by the path of its file. -/
structure SyntaxFault where
  path : String
  deriving DecidableEq, Repr

/-- What is said about a text that the grammar rejects. -/
def SyntaxFault.message (e : SyntaxFault) : String :=
  "syntax errors in php source: " ++ e.path

/-- Reads a text as the file at `path`. -/
def SourceFile.parse (grammar : Grammar) (path source : String) : Except SyntaxFault SourceFile :=
  match grammar source with
  | some rows => .ok (.ofParts path source rows)
  | none => .error ⟨path⟩

end PhpAudit
