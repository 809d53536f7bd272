import Mathlib.Data.List.Forall2
import PhpAudit.Proofs.Json.Reader
import PhpAudit.Proofs.Scan.Evaluation
import PhpAudit.Proofs.Scan.Visits
import PhpAudit.Report.Sarif

/-!
# Logs refer to the rules they describe

Results are made from findings and descriptions from the catalog. What ties them is that a scan reports a
finding under the id and the severity of a rule of its catalog (`Scan.mem_findings_run`). So every result of the
log of a scan has its rule described beside it, with the same level (`log_refers`).

Places are written in words with a sign. No place in a text of fewer than 2^63 - 1 bytes is too large for them
(`Scan.place_lt_half`).
-/

namespace PhpAudit

/-! ## Findings of a scan -/

theorem Rule.exists_report {r : Rule} {cx : Context} {x : Finding} (hx : x ∈ r.findings cx) :
    ∃ notice, x = r.report cx.file notice := by
  rw [r.findings_eq] at hx
  obtain ⟨notice, -, rfl⟩ := List.mem_map.1 hx
  exact ⟨notice, rfl⟩

namespace Scan

variable {scanner : Scanner} {catalog : Catalog} {options : ScanOptions} {clock : Clock}
  {load : String → Except LoadFault (Option SourceFile)} {paths : List String} {x : Finding}

/-- What a scan reports, a rule of the catalog has found in one of the files. -/
theorem mem_findings_run (hx : x ∈ (run scanner catalog options clock load paths).findings) :
    ∃ f ∈ filesAt load paths, ∃ r ∈ catalog.rules,
      x ∈ scanner ⟨f, .build (filesAt load paths)⟩ r := by
  rw [findings_run] at hx
  obtain ⟨p, hp, hx⟩ := List.mem_flatMap.1 hx
  have hfile : p.1 ∈ filesAt load paths := List.fst_mem_of_mem_zipIdx (List.mem_filter.1 hp).1
  obtain ⟨r, hr, hx⟩ := List.mem_flatMap.1 (List.mem_filter.1 hx).1
  exact ⟨p.1, hfile, r, hr, hx⟩

end Scan

/-! ## Places of findings -/

/-- As every line has a byte at its end, there are no more line starts up to an offset than bytes. -/
theorem Text.length_filter_lineStartsFrom (cs : List Char) (offset i : Nat) :
    ((lineStartsFrom offset cs).filter (· ≤ i)).length ≤ i - offset := by
  induction cs generalizing offset with
  | nil => exact Nat.zero_le _
  | cons c cs ih =>
    have hrest := ih (offset + c.utf8Size)
    have hsize := c.utf8Size_pos
    unfold lineStartsFrom
    dsimp only
    split
    · rw [List.filter_cons]
      split
      · next hle =>
        have hle := of_decide_eq_true hle
        rw [List.length_cons]
        omega
      · omega
    · omega

theorem Place.ofOffset_le (source : String) (i : Nat) :
    (Place.ofOffset (Text.lineStarts source) i).line ≤ i + 1 ∧
      (Place.ofOffset (Text.lineStarts source) i).column ≤ i + 1 := by
  have hstarts := Text.length_filter_lineStartsFrom source.toList 0 i
  have hline : (Place.ofOffset (Text.lineStarts source) i).line =
      ((Text.lineStartsFrom 0 source.toList).filter (· ≤ i)).length + 1 := by
    simp [Place.ofOffset, Text.lineStarts]
  exact ⟨by omega, Nat.succ_le_succ (Nat.sub_le i _)⟩

namespace Scan

variable {t : FileTree} {grammar : Grammar} {marker : Option String} {path : String} {f : SourceFile}

/-- A file that loads has the text that was read. -/
theorem read_of_load (hload : SourceFile.load t grammar marker path = .ok (some f)) :
    t.read path = .ok f.source := by
  unfold SourceFile.load at hload
  split at hload
  · split at hload
    · cases hload
    next source hread =>
    split at hload
    · cases hload
    next g hparse =>
    obtain ⟨rows, -, rfl⟩ := SourceFile.ofParts_of_parse hparse
    cases hload
    rw [hread, SourceFile.source_ofParts]
  · cases hload

theorem mirrors_of_load (hg : grammar.GivesTrees)
    (hload : SourceFile.load t grammar marker path = .ok (some f)) :
    ∃ rows : Outline, rows.IsTree ∧ (rows.rowAt 0).span.stop ≤ f.source.utf8ByteSize ∧
      f.Mirrors rows := by
  obtain ⟨source, g, suppressed, hparse, rfl⟩ := parse_of_load hload
  obtain ⟨rows, hrows, rfl⟩ := SourceFile.ofParts_of_parse hparse
  obtain ⟨ht, hstop⟩ := hg source rows hrows
  refine ⟨rows, ht, ?_, SourceFile.mirrors_ofParts ht path source suppressed⟩
  rw [SourceFile.source_ofParts]
  exact hstop

/-- A built-in rule reports no place behind the end of the text. -/
theorem place_le_of_mem_findings {rows : Outline} (hf : f.Mirrors rows) (ht : rows.IsTree)
    (hstop : (rows.rowAt 0).span.stop ≤ f.source.utf8ByteSize) {r : Rule}
    (hr : r ∈ Catalog.builtin.rules) {classes : Hierarchy} {x : Finding}
    (hx : x ∈ r.findings ⟨f, classes⟩) :
    x.line ≤ f.source.utf8ByteSize + 1 ∧ x.column ≤ f.source.utf8ByteSize + 1 := by
  rw [r.findings_of_mirrors hf ht] at hx
  obtain ⟨n, hn, hx⟩ := List.mem_flatMap.1 hx
  obtain ⟨i, hi⟩ := Array.mem_iff_getElem?.1 (Array.mem_toList_iff.1 (List.mem_filter.1 hn).1)
  have hstart := hf.start_le_stop ht (hf.has hi)
  have hroot := hf.stop_le_root ht (hf.has hi)
  have hle := Place.ofOffset_le f.source n.span.start
  have hplace : x.place = Place.ofOffset (Text.lineStarts f.source) n.span.start := by
    rw [place_of_mem_findingsAt hr _ hx, (hf.fromRow hi).place_eq, (hf.fromRow hi).span_eq]
  rw [← hplace] at hle
  exact ⟨Nat.le_trans hle.1 (by omega), Nat.le_trans hle.2 (by omega)⟩

theorem place_lt_half (hg : grammar.GivesTrees) {catalog : Catalog}
    (hc : ∀ r ∈ catalog.rules, r ∈ Catalog.builtin.rules) {options : ScanOptions} {clock : Clock}
    {paths : List String}
    (hsize : ∀ path ∈ paths, ∀ source, t.read path = .ok source → source.utf8ByteSize + 1 < Word.half)
    {x : Finding} (hx : x ∈ (run Scanner.tree catalog options clock
      (SourceFile.load t grammar marker) paths).findings) :
    x.line < Word.half ∧ x.column < Word.half := by
  obtain ⟨f, hf, r, hr, hx⟩ := mem_findings_run hx
  obtain ⟨path, hpath, hload⟩ := (mem_filesAt _ _).1 hf
  obtain ⟨rows, ht, hstop, hmirrors⟩ := mirrors_of_load hg hload
  have hle := place_le_of_mem_findings hmirrors ht hstop (hc r hr) hx
  have hlt := hsize path hpath f.source (read_of_load hload)
  exact ⟨Nat.lt_of_le_of_lt hle.1 hlt, Nat.lt_of_le_of_lt hle.2 hlt⟩

end Scan

namespace Sarif

/-! ## Reading a log -/

/-- The value at the end of a way through fields. -/
def follow? (j : Json) : List String → Option Json
  | [] => some j
  | name :: names => (j.field? name).bind fun value => follow? value names

/-- The only run of a log. -/
def run? (log : Json) : Option Json :=
  match (log.field? "runs").bind Json.asList? with
  | some [run] => some run
  | _ => none

/-- The results of a log. -/
def results? (log : Json) : Option (List Json) := do
  (← follow? (← run? log) ["results"]).asList?

/-- The descriptions of rules in a log. -/
def descriptors? (log : Json) : Option (List Json) := do
  (← follow? (← run? log) ["tool", "driver", "rules"]).asList?

/-- The text at the end of a way through fields. -/
def textAt? (j : Json) (names : List String) : Option String :=
  (follow? j names).bind Json.asText?

/-- The result is that of a finding. Its place is that of the finding as long as a word can hold it. -/
structure Tells (result : Json) (f : Finding) : Prop where
  ruleId : textAt? result ["ruleId"] = some f.ruleId
  level : textAt? result ["level"] = some (Sarif.level f.severity)
  message : textAt? result ["message", "text"] = some f.message
  location : ∃ place, follow? result ["locations"] = some (.arr [place]) ∧
    textAt? place ["physicalLocation", "artifactLocation", "uri"] = some f.file ∧
    (f.line < Word.half →
      follow? place ["physicalLocation", "region", "startLine"] = some (.nat f.line)) ∧
    (f.column < Word.half →
      follow? place ["physicalLocation", "region", "startColumn"] = some (.nat f.column))

/-- The description is that of a rule. -/
structure Describes (descriptor : Json) (r : Rule) : Prop where
  id : textAt? descriptor ["id"] = some r.id
  name : textAt? descriptor ["name"] = some r.name
  description : textAt? descriptor ["fullDescription", "text"] = some r.description
  level : textAt? descriptor ["defaultConfiguration", "level"] = some (Sarif.level r.severity)

/-- The result names a rule by the id of its description, and repeats the level that is given there. -/
def RefersTo (result descriptor : Json) : Prop :=
  ∃ id level, textAt? result ["ruleId"] = some id ∧ textAt? descriptor ["id"] = some id ∧
    textAt? result ["level"] = some level ∧
    textAt? descriptor ["defaultConfiguration", "level"] = some level

theorem signed_of_lt_half {n : Nat} (h : n < Word.half) : Word.signed n = n := by
  unfold Word.half at h
  exact Int.bmod_eq_of_le (by unfold Word.count; omega) (by unfold Word.count; omega)

theorem tells_result (f : Finding) : Tells (result f) f := by
  refine ⟨rfl, rfl, rfl, location f, rfl, rfl, fun hline => ?_, fun hcolumn => ?_⟩
  · have hplace : follow? (location f) ["physicalLocation", "region", "startLine"] =
        some (.num (Word.signed f.line)) := rfl
    rw [hplace, signed_of_lt_half hline, Json.nat]
  · have hplace : follow? (location f) ["physicalLocation", "region", "startColumn"] =
        some (.num (Word.signed f.column)) := rfl
    rw [hplace, signed_of_lt_half hcolumn, Json.nat]

theorem describes_descriptor (r : Rule) : Describes (descriptor r) r := by
  unfold descriptor helpUri
  cases r.weaknesses.head? <;> exact ⟨rfl, rfl, rfl, rfl⟩

theorem results?_log (findings : List Finding) (catalog : Catalog) :
    results? (log findings catalog) = some (findings.map result) := rfl

theorem descriptors?_log (findings : List Finding) (catalog : Catalog) :
    descriptors? (log findings catalog) = some (catalog.rules.map descriptor) := rfl

/-- What a rule reports refers to the description of the rule. -/
theorem refersTo_of_mem_findings {r : Rule} {cx : Context} {x : Finding} (hx : x ∈ r.findings cx) :
    RefersTo (result x) (descriptor r) := by
  obtain ⟨notice, rfl⟩ := Rule.exists_report hx
  exact ⟨r.id, level r.severity, rfl, (describes_descriptor r).id, rfl, (describes_descriptor r).level⟩

/-- The log of a scan has a result for each finding and a description for each rule, in their orders, and every
result refers to one of the descriptions. If the files are not larger than words can count, all places are
written as they are. -/
theorem log_refers {grammar : Grammar} (hg : grammar.GivesTrees) {catalog : Catalog}
    (hc : ∀ r ∈ catalog.rules, r ∈ Catalog.builtin.rules) (t : FileTree) (options : ScanOptions)
    (clock : Clock) (paths : List String) :
    let report := Scan.run Scanner.tree catalog options clock
      (SourceFile.load t grammar options.marker) paths
    ∃ results descriptors, results? (log report.findings catalog) = some results ∧
      descriptors? (log report.findings catalog) = some descriptors ∧
      List.Forall₂ Tells results report.findings ∧
      List.Forall₂ Describes descriptors catalog.rules ∧
      (∀ result ∈ results, ∃ descriptor ∈ descriptors, RefersTo result descriptor) ∧
      ((∀ path ∈ paths, ∀ source, t.read path = .ok source → source.utf8ByteSize + 1 < Word.half) →
        ∀ f ∈ report.findings, f.line < Word.half ∧ f.column < Word.half) := by
  intro report
  refine ⟨_, _, results?_log report.findings catalog, descriptors?_log report.findings catalog, ?_, ?_, ?_,
    fun hsize f hf => Scan.place_lt_half hg hc hsize hf⟩
  · exact List.forall₂_map_left_iff.2 (List.forall₂_same.2 fun f _ => tells_result f)
  · exact List.forall₂_map_left_iff.2 (List.forall₂_same.2 fun r _ => describes_descriptor r)
  · intro result hresult
    obtain ⟨x, hx, rfl⟩ := List.mem_map.1 hresult
    obtain ⟨f, -, r, hr, hx⟩ := Scan.mem_findings_run hx
    exact ⟨descriptor r, List.mem_map.2 ⟨r, hr, rfl⟩, refersTo_of_mem_findings hx⟩

/-- Two of the rules, not in their usual order. -/
def sinkCatalog : Catalog := ⟨[Sink.rawSql, Sink.commandInjection]⟩

/-- The grammar that knows the source of two lines. -/
def twoLinesGrammar : Grammar := .ofSamples [(Scan.twoLinesSource, Scan.twoLinesOutline)]

/-- A directory with that source. -/
def twoLinesTree : FileTree where
  root := .dir [("a.php", .file (.ofText Scan.twoLinesSource))]

/-- Only the second rule reports something, and its two results refer to the second description. -/
theorem log_refers_twoLines :
    let report := Scan.run Scanner.tree sinkCatalog {} (fun _ _ => 0)
      (SourceFile.load twoLinesTree twoLinesGrammar none) ["a.php"]
    twoLinesGrammar.GivesTrees ∧ (∀ r ∈ sinkCatalog.rules, r ∈ Catalog.builtin.rules) ∧
      report.findings.map (fun f => (f.ruleId, f.line, f.column)) =
        [("php.command-injection", 1, 7), ("php.command-injection", 2, 1)] ∧
      ∃ results descriptors, results? (log report.findings sinkCatalog) = some results ∧
        descriptors? (log report.findings sinkCatalog) = some descriptors ∧
        List.Forall₂ Tells results report.findings ∧
        List.Forall₂ Describes descriptors sinkCatalog.rules ∧
        (∀ result ∈ results, ∃ descriptor ∈ descriptors, RefersTo result descriptor) ∧
        ∀ f ∈ report.findings, f.line < Word.half ∧ f.column < Word.half := by
  intro report
  have hg : twoLinesGrammar.GivesTrees := Grammar.givesTrees_ofSamples fun p hp => by
    obtain rfl := List.mem_singleton.1 hp
    exact ⟨by constructor <;> decide +kernel, by decide +kernel⟩
  have hc : ∀ r ∈ sinkCatalog.rules, r ∈ Catalog.builtin.rules := by
    simp [sinkCatalog, Catalog.builtin]
  have hread : twoLinesTree.read "a.php" = .ok Scan.twoLinesSource := by decide +kernel
  obtain ⟨results, descriptors, hresults, hdescriptors, htells, hdescribes, hrefer, hplaces⟩ :=
    log_refers hg hc twoLinesTree {} (fun _ _ => 0) ["a.php"]
  refine ⟨hg, hc, by decide +kernel, results, descriptors, hresults, hdescriptors, htells, hdescribes,
    hrefer, hplaces fun path hpath source hsource => ?_⟩
  obtain rfl := List.mem_singleton.1 hpath
  obtain rfl := Except.ok.inj (hread.symm.trans hsource)
  decide +kernel

end Sarif

end PhpAudit
