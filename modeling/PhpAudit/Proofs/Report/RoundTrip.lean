import PhpAudit.Proofs.Json.Reader
import PhpAudit.Report.Document

/-!
# Reports read back

A written report is a JSON text of one document, and the findings are found in it as they were given
(`json_reads_back`).
-/

namespace PhpAudit

/-- The severity with the given name. -/
def Severity.ofLabel? (s : String) : Option Severity :=
  Severity.all.find? (fun severity => severity.label == s)

theorem Severity.ofLabel?_label (s : Severity) : Severity.ofLabel? s.label = some s := by
  cases s <;> rfl

/-- Reads a finding, field by field. -/
def Finding.ofJson? (j : Json) : Option Finding := do
  let ruleId ← (← j.field? "rule_id").asText?
  let label ← (← j.field? "type").asText?
  let severity ← Severity.ofLabel? (← (← j.field? "severity").asText?)
  let file ← (← j.field? "file").asText?
  let line ← (← j.field? "line").asNat?
  let column ← (← j.field? "column").asNat?
  let excerpt ← (← j.field? "excerpt").asText?
  let message ← (← j.field? "message").asText?
  let weaknesses ← (← j.field? "weaknesses").asListOf? Json.asText?
  return { ruleId, label, severity, file, line, column, excerpt, message, weaknesses }

theorem Finding.ofJson?_toJson (f : Finding) : Finding.ofJson? f.toJson = some f := by
  have hweaknesses : (Json.strs f.weaknesses).asListOf? Json.asText? = some f.weaknesses :=
    Json.asListOf?_map Json.asText?_str f.weaknesses
  simp [Finding.ofJson?, Finding.toJson, Json.field?, Severity.ofLabel?_label, hweaknesses]

namespace Report

/-- The findings that a document reports. -/
def findings? (doc : Json) : Option (List Finding) := do
  (← doc.field? "findings").asListOf? Finding.ofJson?

theorem findings?_document (findings : List Finding) :
    findings? (document findings) = some findings := by
  simp [findings?, document, Json.field?, Json.asListOf?_map Finding.ofJson?_toJson]

/-- A written report is a text of one document only. Read back, the document gives the number of findings and
the findings themselves, every field of each and in their order. So two lists of findings never share
a report. -/
theorem json_reads_back (findings : List Finding) :
    ∃ doc, (∀ other, Json.IsText other (json findings) ↔ other = doc) ∧
      Json.read? (json findings) = some doc ∧
      (doc.field? "total").bind Json.asNat? = some findings.length ∧
      findings? doc = some findings ∧
      ∀ others, json others = json findings → others = findings := by
  have htext : ∀ fs, Json.IsText (document fs) (json fs) := fun fs => Json.isText_pretty (document fs)
  refine ⟨document findings, fun other => ⟨fun h => h.unique (htext findings), ?_⟩,
    Json.read?_of_isText (htext findings), by simp [document, Json.field?], findings?_document findings, ?_⟩
  · rintro rfl
    exact htext findings
  · intro others heq
    have hdoc : document others = document findings := (heq ▸ htext others).unique (htext findings)
    have hread := findings?_document others
    rw [hdoc, findings?_document] at hread
    exact (Option.some.inj hread).symm

end Report

end PhpAudit
