import PhpAudit.ClassName
import PhpAudit.Span

/-!
# Namespaces, imports and the meaning of a written class name

A file is covered by namespace regions, each with the class aliases that its `use` declarations
introduce. `Namespace.resolve` gives the full name that a written name has in a region.
-/

namespace PhpAudit

/-- A class alias: `short` stands for the full name `target`. -/
structure Import where
  short : String
  target : String
  deriving DecidableEq, Repr, Inhabited

/-- A stretch of a file that belongs to one namespace, with the aliases declared in it. Code outside
any declaration belongs to the region with the empty name. -/
structure Namespace where
  name : String
  span : Span
  imports : List Import := []
  deriving DecidableEq, Repr, Inhabited

namespace Import

/-- Reads one clause of a `use` declaration, `Name` or `Name as Alias`. The name is put behind the
group's `path` if there is one, and a clause without an alias is known by its last segment. -/
def ofClause? (clause : String) (path : Option String) : Option Import :=
  match Text.words clause with
  | [name] => build name none
  | [name, keyword, short] =>
    if Text.sameAscii keyword "as" then build name (some short) else none
  | _ => none
where
  /-- The import of a written name, unless nothing is left of the name. -/
  build (written : String) (short : Option String) : Option Import :=
    let name := ClassName.normalize (Text.stripEnd ',' written)
    if name.isEmpty then none
    else
      let group := (path.map (Text.stripEnd ClassName.separator <| ClassName.normalize ·)).getD ""
      let target := ClassName.qualify group name
      some ⟨short.getD (ClassName.shortName target), target⟩

end Import

namespace Namespace

/-- The region with the given written name, before any import. -/
def named (name : String) (span : Span) : Namespace :=
  { name := ClassName.normalize name, span := span }

/-- The first import with the given alias. -/
def import? (ns : Namespace) (name : String) : Option Import :=
  ns.imports.find? (fun i => Text.sameAscii i.short name)

/-- The full name of a name in a region that is neither absolute, relative nor a type keyword. -/
def resolveIn (ns : Namespace) (written : String) : String :=
  match Text.splitFirst? ClassName.separator written with
  | some (first, rest) =>
    if Text.sameAscii first "namespace" then ClassName.qualify ns.name rest
    else
      match ns.import? first with
      | some i => ClassName.join i.target rest
      | none => ClassName.qualify ns.name written
  | none =>
    match ns.import? written with
    | some i => i.target
    | none => ClassName.qualify ns.name written

/-- The full name that a written class name has in a region. Relative names and type keywords stay
as written. -/
def resolve (written : String) (ns : Option Namespace) : String :=
  let name := Text.trim written
  match name.toList with
  | '\\' :: rest => String.ofList rest
  | _ =>
    if ClassName.isRelative name || ClassName.isBuiltinType name then name
    else
      match ns with
      | none => name
      | some ns => ns.resolveIn name

/-- The position of the shortest span that contains an offset, the first of several. -/
def innermostIdx? (spans : List Span) (offset : Nat) : Option Nat :=
  (spans.zipIdx.filter (fun p => p.1.contains offset)).foldl
    (fun best p =>
      match best with
      | none => some p
      | some b => if p.1.length < b.1.length then some p else some b)
    (none : Option (Span × Nat)) |>.map (·.2)

/-- The innermost region at an offset. -/
def innermost? (regions : List Namespace) (offset : Nat) : Option Namespace :=
  (innermostIdx? (regions.map (·.span)) offset).bind (regions[·]?)

end Namespace

end PhpAudit
