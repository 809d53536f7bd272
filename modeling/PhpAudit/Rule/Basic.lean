import PhpAudit.Finding
import PhpAudit.Query.Context

/-!
# Rules and catalogs

A rule looks at every node of the kinds it names and reports what it has to say. A catalog lists the
rules that a scan evaluates, in order; a rule may stand in it more than once.
-/

namespace PhpAudit

/-- A remark of a rule about a node. -/
structure Notice where
  node : Node
  message : String

/-- A detector for one weakness. -/
structure Rule where
  id : String
  name : String
  description : String
  severity : Severity
  weaknesses : List Weakness
  kinds : List Kind
  check : Context → Node → Except Misuse (List Notice)

namespace Rule

/-- The finding that a remark about a file stands for. -/
def report (r : Rule) (f : SourceFile) (notice : Notice) : Finding :=
  { ruleId := r.id, label := r.name, severity := r.severity, file := f.path,
    line := notice.node.place.line, column := notice.node.place.column,
    excerpt := f.excerpt notice.node.place.line, message := notice.message,
    weaknesses := r.weaknesses.map (·.id) }

/-- The findings of a rule at one node; a misuse gives none. -/
def findingsAt (r : Rule) (cx : Context) (n : Node) : List Finding :=
  match r.check cx n with
  | .ok notices => notices.map (r.report cx.file)
  | .error _ => []

/-- The findings of a rule on a file, in the order of a walk through its tree. -/
def findings (r : Rule) (cx : Context) : List Finding :=
  match cx.file.root? with
  | none => []
  | some root =>
    ((cx.file.descendants root).filter (fun n => r.kinds.contains n.kind)).flatMap (r.findingsAt cx)

end Rule

/-- The rules of a scan, in the order of their evaluation. -/
structure Catalog where
  rules : List Rule := []

namespace Catalog

/-- The number of rules. -/
def size (c : Catalog) : Nat := c.rules.length

/-- Adds a rule at the end. -/
def push (c : Catalog) (r : Rule) : Catalog := ⟨c.rules ++ [r]⟩

/-- The catalog without the rules whose ids are listed. -/
def without (c : Catalog) (ids : List String) : Catalog :=
  ⟨c.rules.filter (fun r => !ids.contains r.id)⟩

/-- The catalog of the rules whose ids are listed. -/
def only (c : Catalog) (ids : List String) : Catalog :=
  ⟨c.rules.filter (fun r => ids.contains r.id)⟩

/-- The first rule with the given id. -/
def get? (c : Catalog) (id : String) : Option Rule :=
  c.rules.find? (fun r => r.id == id)

/-- Whether a rule has the given id. -/
def contains (c : Catalog) (id : String) : Bool :=
  c.rules.any (fun r => r.id == id)

/-- The ids of the rules, in order. -/
def ids (c : Catalog) : List String := c.rules.map (·.id)

/-- The ids of the rules as a list in brackets. -/
def summary (c : Catalog) : String :=
  "[" ++ String.intercalate ", " (c.ids.map fun id => "\"" ++ id ++ "\"") ++ "]"

end Catalog

end PhpAudit
