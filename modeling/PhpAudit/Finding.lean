import PhpAudit.Severity

/-!
# Findings
-/

namespace PhpAudit

/-- What a rule reports about a place in a file. `label` is the name of the rule, and `weaknesses` are
the identifiers of the weakness classes it belongs to. -/
structure Finding where
  ruleId : String
  label : String
  severity : Severity
  file : String
  line : Nat
  column : Nat
  excerpt : String
  message : String
  weaknesses : List String := []
  deriving DecidableEq, Repr, Inhabited

end PhpAudit
