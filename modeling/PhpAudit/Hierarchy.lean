import PhpAudit.Tree.SourceFile

/-!
# The class hierarchy of a project

Every class, interface, trait and enum declared in the files of a project, under the key of its name.
The first declaration of a class counts. On top of the declarations stand the parent chain of a
class, the methods it inherits along that chain, and the subclass relation through parents and
interfaces. Parent links may form cycles; the chain then ends before the first repetition.
-/

namespace PhpAudit

/-- What is known of a declared class. `inherited` pairs a method with the nearest class up the
parent chain that declares it. -/
structure ClassInfo where
  name : String
  parent : Option String := none
  interfaces : List String := []
  ownMethods : List String := []
  inherited : List (String × String) := []
  deriving DecidableEq, Repr, Inhabited

namespace ClassInfo

/-- Whether the class itself declares a method. -/
def declares (c : ClassInfo) (method : String) : Bool :=
  Text.isOneOf c.ownMethods method

/-- The class that an inherited method comes from. -/
def inheritedFrom? (c : ClassInfo) (method : String) : Option String :=
  (c.inherited.find? (fun p => Text.sameAscii p.1 method)).map (·.2)

/-- The names a class extends or implements. -/
def supers (c : ClassInfo) : List String :=
  c.parent.toList ++ c.interfaces

end ClassInfo

/-! ## Declarations of a file -/

namespace SourceFile

/-- The class names listed in an `extends` or `implements` clause. -/
def clauseNames (f : SourceFile) (clause : Node) : List String :=
  ((f.children clause).filter (fun c => c.kind.isName)).map fun c =>
    ClassName.normalize (c.resolved.getD (f.text c))

/-- The names in all clauses of one kind of a class. -/
def superNames (f : SourceFile) (decl : Node) (clause : Kind) : List String :=
  ((f.children decl).filter (fun c => c.kind = clause)).flatMap f.clauseNames

/-- The body of a class. -/
def classBody? (f : SourceFile) (decl : Node) : Option Node :=
  f.child? decl "body" <|> f.firstOf? decl .block

/-- The methods declared in the body of a class, each name once. -/
def methodNames (f : SourceFile) (decl : Node) : List String :=
  match f.classBody? decl with
  | none => []
  | some body =>
    Text.dedupAscii (((f.children body).filter (fun c => c.kind = .method)).filterMap (·.value))

/-- What a class declaration says. The names an interface extends count as its interfaces. -/
def describe? (f : SourceFile) (decl : Node) : Option ClassInfo :=
  decl.name?.map fun name =>
    let parents := f.superNames decl .baseClause
    let interfaces := f.superNames decl .interfaceClause
    let known : ClassInfo :=
      { name := ClassName.normalize name, ownMethods := f.methodNames decl }
    if decl.kind = .interfaceDecl then { known with interfaces := parents ++ interfaces }
    else { known with parent := parents.head?, interfaces := interfaces }

/-- The classes declared in a file at any depth, in source order. -/
def declaredClasses (f : SourceFile) : List ClassInfo :=
  match f.root? with
  | none => []
  | some root =>
    ((f.descendants root).filter (fun n => n.kind.isClassLike)).filterMap f.describe?

end SourceFile

/-- Declared classes by key, in increasing order of the keys. -/
structure Hierarchy where
  classes : List (String × ClassInfo) := []
  deriving Inhabited

namespace Hierarchy

/-- The number of classes. -/
def size (h : Hierarchy) : Nat := h.classes.length

/-- What is known of the class with the given name. -/
def get? (h : Hierarchy) (name : String) : Option ClassInfo :=
  h.classes.lookup (ClassName.key name)

/-- Whether a class is declared. -/
def contains (h : Hierarchy) (name : String) : Bool :=
  (h.get? name).isSome

/-- The classes in the order of their keys. -/
def toList (h : Hierarchy) : List ClassInfo :=
  h.classes.map (·.2)

/-- Enters a class under a key that is not taken yet. -/
def insertNew (key : String) (c : ClassInfo) :
    List (String × ClassInfo) → List (String × ClassInfo)
  | [] => [(key, c)]
  | entry :: rest =>
    if key < entry.1 then (key, c) :: entry :: rest
    else if key = entry.1 then entry :: rest
    else entry :: insertNew key c rest

/-- Adds a declaration unless the class is known already. -/
def declare (h : Hierarchy) (c : ClassInfo) : Hierarchy :=
  ⟨insertNew (ClassName.key c.name) c h.classes⟩

/-! ## The parent chain -/

/-- The parent of a declared class. -/
def parentOf? (h : Hierarchy) (name : String) : Option String :=
  (h.get? name).bind (·.parent)

/-- Climbs from `next` on while the keys are new. A name that is not declared ends the chain. -/
def climb (h : Hierarchy) : Nat → List String → Option String → List String
  | 0, _, _ => []
  | _ + 1, _, none => []
  | fuel + 1, seen, some name =>
    if seen.contains (ClassName.key name) then []
    else name :: h.climb fuel (ClassName.key name :: seen) (h.parentOf? name)

/-- The parent chain of a class, nearest first. Each step leaves one declared class behind, so the
chain is no longer than their number. -/
def ancestors (h : Hierarchy) (name : String) : List String :=
  h.climb (h.size + 1) [ClassName.key name] (h.parentOf? name)

/-- The methods that the classes from `next` on pass down. The walk up ends at a class that it has met or
that is not declared. `taken` has the names that are in use already, in lower case. -/
def passedDown (h : Hierarchy) :
    Nat → List String → List String → Option String → List (String × String)
  | 0, _, _, _ => []
  | _ + 1, _, _, none => []
  | fuel + 1, met, taken, some name =>
    if met.contains (ClassName.key name) then []
    else
      match h.get? name with
      | none => []
      | some c =>
        let fresh := c.ownMethods.filter (fun m => !taken.contains (Text.asciiLower m))
        fresh.map (·, c.name) ++
          h.passedDown fuel (ClassName.key name :: met) (taken ++ fresh.map Text.asciiLower) c.parent

/-- The methods a declared class inherits along its parent chain. -/
def inheritedMethods (h : Hierarchy) (c : ClassInfo) : List (String × String) :=
  h.passedDown (h.size + 1) [ClassName.key c.name] (c.ownMethods.map Text.asciiLower) c.parent

/-- The hierarchy of the given declarations, without inherited methods. -/
def ofDeclarations (cs : List ClassInfo) : Hierarchy :=
  cs.foldl declare {}

/-- Fills in the inherited methods of every class. -/
def withInherited (h : Hierarchy) : Hierarchy :=
  ⟨h.classes.map fun (key, c) => (key, { c with inherited := h.inheritedMethods c })⟩

/-- The hierarchy of a list of files. -/
def build (files : List SourceFile) : Hierarchy :=
  (ofDeclarations (files.flatMap (·.declaredClasses))).withInherited

/-- The class that provides a method to a class: itself or the nearest one up the parent chain. -/
def findMethod? (h : Hierarchy) (name method : String) : Option String :=
  (h.get? name).bind fun c =>
    if c.declares method then some c.name else c.inheritedFrom? method

/-! ## Subclasses -/

/-- The names that a class extends or implements; none if it is not declared. -/
def supersOf (h : Hierarchy) (name : String) : List String :=
  ((h.get? name).map (·.supers)).getD []

/-- The names among `names` whose keys are new, each key once, with the keys met by then. -/
def fresh (seen : List String) : List String → List String × List String
  | [] => (seen, [])
  | name :: names =>
    if seen.contains (ClassName.key name) then fresh seen names
    else
      let (seen, rest) := fresh (ClassName.key name :: seen) names
      (seen, name :: rest)

/-- Breadth-first search for `target` among the names above those in the queue. -/
def searchUp (h : Hierarchy) (target : String) : Nat → List String → List String → Bool
  | 0, _, _ => false
  | _ + 1, _, [] => false
  | fuel + 1, seen, name :: queue =>
    let next := h.supersOf name
    if next.any (ClassName.same · target) then true
    else
      let (seen, added) := fresh seen next
      h.searchUp target fuel seen (queue ++ added)

/-- The number of links from a class to a parent or an interface. -/
def linkCount (h : Hierarchy) : Nat :=
  h.toList.foldl (fun n c => n + c.supers.length) 0

/-- Whether a class extends or implements another, directly or through declared classes. Every name
enters the queue by a link of its own, so the links bound the search. -/
def isSubclassOf (h : Hierarchy) (name target : String) : Bool :=
  h.searchUp target (h.linkCount + 2) [ClassName.key name] [name]

/-- Whether a class is `target` or a subclass of it. -/
def isA (h : Hierarchy) (name target : String) : Bool :=
  ClassName.same name target || h.isSubclassOf name target

end Hierarchy

end PhpAudit
