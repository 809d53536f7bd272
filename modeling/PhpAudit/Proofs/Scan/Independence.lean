import PhpAudit.Proofs.Scan.Growth

/-!
# Rules do not interfere

Every finding has the id of the rule that made it, and a rule looks at the file and the hierarchy only. So
dropping rules from a catalog drops their findings and leaves all others as they are, in their order
(`run_without_only`). Filtering by rule passes through the nesting of a scan from the inside out: the nodes
of a file, the rules of the catalog, the lines that are suppressed, the files.
-/

namespace PhpAudit

/-! ## One rule -/

theorem Rule.ruleId_of_mem_findingsAt {r : Rule} {cx : Context} {n : Node} {x : Finding}
    (hx : x ∈ r.findingsAt cx n) : x.ruleId = r.id := by
  unfold findingsAt at hx
  split at hx
  · obtain ⟨notice, -, rfl⟩ := List.mem_map.1 hx
    rfl
  · cases hx

/-- A finding has the id of its rule. -/
theorem Rule.ruleId_of_mem_findings {r : Rule} {cx : Context} {x : Finding}
    (hx : x ∈ r.findings cx) : x.ruleId = r.id := by
  unfold findings at hx
  split at hx
  · cases hx
  · obtain ⟨n, -, hx⟩ := List.mem_flatMap.1 hx
    exact ruleId_of_mem_findingsAt hx

/-- A choice of ids keeps all findings of a rule or none of them. -/
theorem Rule.filter_findings (r : Rule) (cx : Context) (keep : String → Bool) :
    (r.findings cx).filter (fun x => keep x.ruleId) = if keep r.id then r.findings cx else [] := by
  split
  · next hkeep =>
    refine List.filter_eq_self.2 fun x hx => ?_
    rw [ruleId_of_mem_findings hx, hkeep]
  · next hkeep =>
    refine List.filter_eq_nil_iff.2 fun x hx => ?_
    rw [ruleId_of_mem_findings hx]
    exact hkeep

/-! ## One file -/

/-- The rules of a catalog whose ids are chosen. -/
def Catalog.restrict (c : Catalog) (keep : String → Bool) : Catalog :=
  ⟨c.rules.filter fun r => keep r.id⟩

theorem Catalog.findings_restrict (c : Catalog) (keep : String → Bool) (cx : Context) :
    (c.restrict keep).rules.flatMap (·.findings cx) =
      (c.rules.flatMap (·.findings cx)).filter (fun x => keep x.ruleId) := by
  unfold restrict
  induction c.rules with
  | nil => rfl
  | cons r rules ih =>
    rw [List.flatMap_cons, List.filter_append, Rule.filter_findings, List.filter_cons, ← ih]
    split
    · rw [List.flatMap_cons]
    · rfl

namespace Scan

variable {options : ScanOptions}

theorem reported_restrict (c : Catalog) (keep : String → Bool) (cx : Context) :
    (c.restrict keep).reported Scanner.tree cx =
      (c.reported Scanner.tree cx).filter (fun x => keep x.ruleId) := by
  have hrestrict : (c.restrict keep).rules.flatMap (Scanner.tree cx) =
      (c.rules.flatMap (Scanner.tree cx)).filter (fun x => keep x.ruleId) :=
    c.findings_restrict keep cx
  unfold Catalog.reported
  rw [hrestrict, List.filter_comm]

/-! ## A scan -/

variable (load : String → Except LoadFault (Option SourceFile)) (paths : List String)

theorem findings_restrict (hb : options.budget = none) (c : Catalog) (keep : String → Bool)
    (clock clock' : Clock) :
    (run Scanner.tree (c.restrict keep) options clock' load paths).findings =
      (run Scanner.tree c options clock load paths).findings.filter (fun x => keep x.ruleId) := by
  rw [findings_run_of_budget_none hb, findings_run_of_budget_none hb, List.filter_flatMap]
  exact List.flatMap_congr fun f _ => reported_restrict c keep ⟨f, _⟩

/-- Without a budget, a scan that leaves some rules out reports what the others find in the scan with all
rules, and a scan with those rules only reports what they find in it, each in the same order. The three scans
have the same failed files, as many files, and hierarchies of one size. -/
theorem run_without_only (hb : options.budget = none) (catalog : Catalog) (ids : List String)
    (clock clock₁ clock₂ : Clock) :
    let whole := run Scanner.tree catalog options clock load paths
    let rest := run Scanner.tree (catalog.without ids) options clock₁ load paths
    let part := run Scanner.tree (catalog.only ids) options clock₂ load paths
    rest.findings = whole.findings.filter (fun x => !ids.contains x.ruleId) ∧
      part.findings = whole.findings.filter (fun x => ids.contains x.ruleId) ∧
      ∀ report ∈ [rest, part], report.failed = whole.failed ∧
        report.filesScanned = whole.filesScanned ∧ report.classes.size = whole.classes.size := by
  intro whole rest part
  refine ⟨?_, ?_, ?_⟩
  · exact findings_restrict load paths hb catalog (fun id => !ids.contains id) clock clock₁
  · exact findings_restrict load paths hb catalog (fun id => ids.contains id) clock clock₂
  · have same : ∀ (c : Catalog) (clock' : Clock),
        let report := run Scanner.tree c options clock' load paths
        report.failed = whole.failed ∧ report.filesScanned = whole.filesScanned ∧
          report.classes.size = whole.classes.size := by
      intro c clock' report
      refine ⟨?_, ?_, rfl⟩
      · rw [failed_run_of_budget_none hb, failed_run_of_budget_none hb]
      · rw [filesScanned_run, filesScanned_run]
    simp only [List.mem_cons, List.not_mem_nil, or_false, forall_eq_or_imp, forall_eq]
    exact ⟨same _ clock₁, same _ clock₂⟩

/-- A file with a secret parameter and a command from a superglobal. -/
def twoRulesSource : String := "<?php function f($token){exec($_GET);}"

/-- The outline of `twoRulesSource`. -/
def twoRulesOutline : Outline :=
  [⟨0, "program", none, ⟨0, 38⟩⟩, ⟨1, "php_tag", none, ⟨0, 5⟩⟩,
    ⟨1, "function_definition", none, ⟨6, 38⟩⟩, ⟨2, "name", some "name", ⟨15, 16⟩⟩,
    ⟨2, "formal_parameters", some "parameters", ⟨16, 24⟩⟩, ⟨3, "simple_parameter", none, ⟨17, 23⟩⟩,
    ⟨4, "variable_name", some "name", ⟨17, 23⟩⟩, ⟨5, "name", none, ⟨18, 23⟩⟩,
    ⟨2, "compound_statement", some "body", ⟨24, 38⟩⟩, ⟨3, "expression_statement", none, ⟨25, 37⟩⟩,
    ⟨4, "function_call_expression", none, ⟨25, 36⟩⟩, ⟨5, "name", some "function", ⟨25, 29⟩⟩,
    ⟨5, "arguments", some "arguments", ⟨29, 36⟩⟩, ⟨6, "argument", none, ⟨30, 35⟩⟩,
    ⟨7, "variable_name", none, ⟨30, 35⟩⟩, ⟨8, "name", none, ⟨31, 35⟩⟩]

/-- The built-in rules, that for commands twice. -/
def twiceCatalog : Catalog := Catalog.builtin.push Sink.commandInjection

/-- Without the rule for commands the finding of the other rule stays, and with it alone its own two. -/
theorem run_without_only_twoRules :
    let load := fun path => (Except.ok (some (.ofParts path twoRulesSource twoRulesOutline)) :
      Except LoadFault (Option SourceFile))
    let ids := ["php.command-injection"]
    let scan := fun catalog => run Scanner.tree catalog {} (fun _ _ => 0) load ["a.php"]
    ({} : ScanOptions).budget = none ∧
      (scan twiceCatalog).findings.map (·.ruleId) =
        ["php.missing-sensitive-parameter", "php.command-injection", "php.command-injection"] ∧
      (scan (twiceCatalog.without ids)).findings =
        (scan twiceCatalog).findings.filter (fun x => !ids.contains x.ruleId) ∧
      (scan (twiceCatalog.only ids)).findings =
        (scan twiceCatalog).findings.filter (fun x => ids.contains x.ruleId) := by
  intro load ids scan
  have hb : ({} : ScanOptions).budget = none := rfl
  have h := run_without_only load ["a.php"] hb twiceCatalog ids (fun _ _ => 0) (fun _ _ => 0)
    (fun _ _ => 0)
  exact ⟨hb, by decide +kernel, h.1, h.2.1⟩

end Scan

end PhpAudit
