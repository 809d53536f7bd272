import PhpAudit.Rule.Sensitive
import PhpAudit.Rule.Sink

/-!
# The built-in catalog
-/

namespace PhpAudit

/-- Every built-in rule, in the order of evaluation. -/
def Catalog.builtin : Catalog :=
  ⟨[Sink.deserialization, Sensitive.rule, Sink.queryBuilderSort, Sink.commandInjection,
    Sink.rawSql]⟩

end PhpAudit
