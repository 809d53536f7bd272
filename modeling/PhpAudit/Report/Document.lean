import PhpAudit.Finding
import PhpAudit.Json.Pretty

/-!
# Reports as JSON
-/

namespace PhpAudit

/-- A finding as a document. -/
def Finding.toJson (f : Finding) : Json :=
  .obj [("rule_id", .str f.ruleId), ("type", .str f.label), ("severity", .str f.severity.label),
    ("file", .str f.file), ("line", .nat f.line), ("column", .nat f.column),
    ("excerpt", .str f.excerpt), ("message", .str f.message), ("weaknesses", .strs f.weaknesses)]

namespace Report

/-- The findings and their number as a document. -/
def document (findings : List Finding) : Json :=
  .obj [("findings", .arr (findings.map Finding.toJson)), ("total", .nat findings.length)]

/-- The written report of a list of findings, closed by a line feed. -/
def json (findings : List Finding) : String :=
  (document findings).pretty ++ "\n"

end Report

end PhpAudit
