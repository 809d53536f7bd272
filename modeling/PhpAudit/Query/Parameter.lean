import PhpAudit.Query.Context

/-!
# Parameters and attributes
-/

namespace PhpAudit.SourceFile

/-- The name of a parameter, without its sigil. -/
def parameterName (_f : SourceFile) (n : Node) : Except Misuse String := do
  n.expect .parameter "parameter"
  return n.value.getD ""

/-- The first full class name in the declared type of a node. -/
def declaredType? (f : SourceFile) (n : Node) : Option String :=
  (f.child? n "type").bind fun type => (f.descendants type).findSome? (·.resolved)

/-- The class of a parameter's declared type, the first one of a union. -/
def parameterType (f : SourceFile) (n : Node) : Except Misuse (Option String) := do
  n.expect .parameter "parameter"
  return f.declaredType? n

/-- The attributes written in front of a node. -/
def attributesOf (f : SourceFile) (n : Node) : List Node :=
  (((f.children n).filter (fun c => c.kind = .attrList)).flatMap f.descendants).filter
    (fun c => c.kind = .attr)

/-- The attributes of a parameter. -/
def parameterAttributes (f : SourceFile) (n : Node) : Except Misuse (List Node) := do
  n.expect .parameter "parameter"
  return f.attributesOf n

/-- The class of an attribute as written. -/
def attributeName (_f : SourceFile) (n : Node) : Except Misuse String := do
  n.expect .attr "attribute"
  return n.value.getD ""

/-- Whether the last segment of an attribute's name is that of `name`, up to ASCII case. -/
def attributeIsNamed (f : SourceFile) (name : String) (n : Node) : Except Misuse Bool := do
  let written ← f.attributeName n
  return !written.isEmpty &&
    Text.sameAscii (ClassName.shortName written) (ClassName.shortName name)

/-- Whether a parameter carries an attribute of the given name. -/
def hasAttribute (f : SourceFile) (name : String) (n : Node) : Except Misuse Bool := do
  let attributes ← f.parameterAttributes n
  attributes.anyM (f.attributeIsNamed name)

/-- The name of a variable, without its sigil. -/
def variableName (_f : SourceFile) (n : Node) : Except Misuse String := do
  n.expect .var "variable"
  return n.value.getD ""

end PhpAudit.SourceFile
