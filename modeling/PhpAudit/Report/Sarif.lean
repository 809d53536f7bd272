import PhpAudit.Json.Pretty
import PhpAudit.Rule.Basic
import PhpAudit.Word

/-!
# Reports as SARIF

The static analysis results interchange format, version 2.1.0: one run, which describes every rule of
the catalog and lists a result per finding.
-/

namespace PhpAudit.Sarif

/-- Where the schema of the format is found. -/
def schemaUrl : String :=
  "https://schemastore.azurewebsites.net/schemas/json/sarif-2.1.0.json"

/-- The name of the tool in its reports. -/
def toolName : String := "RootCause PHP"

/-- The level of a severity. -/
def level : Severity → String
  | .info | .low => "note"
  | .medium => "warning"
  | .high | .critical => "error"

/-- A message or a description. -/
def text (s : String) : Json := .obj [("text", .str s)]

/-- The page on the first weakness class of a rule, if it has one. -/
def helpUri (r : Rule) : List (String × Json) :=
  (r.weaknesses.head?.map fun w => ("helpUri", .str w.url)).toList

/-- The description of a rule. -/
def descriptor (r : Rule) : Json :=
  .obj ([("id", .str r.id), ("name", .str r.name), ("shortDescription", text r.name),
    ("fullDescription", text r.description),
    ("defaultConfiguration", .obj [("level", .str (level r.severity))])] ++ helpUri r ++
    [("properties", .obj [("tags", .strs ("security" :: r.weaknesses.map (·.id)))])])

/-- The place of a finding. -/
def location (f : Finding) : Json :=
  .obj [("physicalLocation", .obj [
    ("artifactLocation", .obj [("uri", .str f.file)]),
    ("region", .obj [("startLine", .num (Word.signed f.line)),
      ("startColumn", .num (Word.signed f.column))])])]

/-- The result that a finding stands for. -/
def result (f : Finding) : Json :=
  .obj [("ruleId", .str f.ruleId), ("level", .str (level f.severity)),
    ("message", text f.message), ("locations", .arr [location f])]

/-- The log of one run. -/
def log (findings : List Finding) (catalog : Catalog) : Json :=
  .obj [("$schema", .str schemaUrl), ("version", .str "2.1.0"),
    ("runs", .arr [.obj [
      ("results", .arr (findings.map result)),
      ("tool", .obj [("driver", .obj [("name", .str toolName),
        ("rules", .arr (catalog.rules.map descriptor))])])]])]

/-- The written log, closed by a line feed. -/
def render (findings : List Finding) (catalog : Catalog) : String :=
  (log findings catalog).pretty ++ "\n"

end PhpAudit.Sarif
