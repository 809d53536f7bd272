import PhpAudit.Proofs.Report.Sarif
import PhpAudit.Proofs.Rule.Suppression
import PhpAudit.Proofs.Scan.Accounting
import PhpAudit.Proofs.Text.LineAround

/-!
# A marker hides the lines it is on

Where a finding is, what it shows of the text and whether a marker hides it is said about one and the same line,
the stretch between two line feeds around the first byte of its node (`Finding.StandsOn`). A scan with a marker
reports what the scan without it reports, less the findings on lines that have the marker
(`marker_hides_lines`). A marker without letters is on every line that there is, and a finding is never behind the
last of them: a built-in rule reports nodes that have a name inside (`start_lt_of_mem_findingsAt`).
-/

namespace PhpAudit

/-! ## What a reported node holds -/

namespace SourceFile

variable {f : SourceFile} {rows : Outline} (hf : f.Mirrors rows) (ht : rows.IsTree)
  (hstop : (rows.rowAt 0).span.stop ≤ f.source.utf8ByteSize) {n : Node} (hn : f.Has n)
include hf ht hstop hn

/-- A node with some text in a child starts before the end of the file. -/
theorem start_lt_of_text {c : Node} (hc : c ∈ f.children n) (htext : f.text c ≠ "") :
    n.start < f.source.utf8ByteSize := by
  have hchas := hf.has_of_mem_children hc
  have hstart := hf.start_le hn hchas (Nat.le_of_lt (hf.child_lt hn hc))
  have hroot := hf.stop_le_root ht hchas
  have hlt : c.span.start < c.span.stop := by
    unfold text at htext
    cases hslice : Text.slice? f.source c.span.start c.span.stop with
    | none => rw [hslice, Option.getD_none] at htext; exact absurd rfl htext
    | some word =>
      obtain ⟨_, _, -, hleft, hright⟩ := Text.slice?_eq_some_iff.1 hslice
      rw [hslice, Option.getD_some] at htext
      have hsize : word.utf8ByteSize ≠ 0 := fun hzero => htext (String.utf8ByteSize_eq_zero_iff.1 hzero)
      omega
  unfold Node.start
  omega

theorem start_lt_of_isNamedAny {names : List String} (hnames : ∀ name ∈ names, ClassName.key name ≠ "")
    (hnamed : f.isNamedAny n names = true) : n.start < f.source.utf8ByteSize := by
  unfold isNamedAny callName? at hnamed
  obtain ⟨callee, hcallee, hsame⟩ := (Option.any_eq_true _ _).1 hnamed
  obtain ⟨field, -, hcallee⟩ := Option.bind_eq_some_iff.1 hcallee
  obtain ⟨c, hc, hcallee⟩ := Option.bind_eq_some_iff.1 hcallee
  refine start_lt_of_text hf ht hstop hn (mem_children_of_child? hc) fun hempty => ?_
  rw [hempty] at hcallee
  obtain ⟨-, hcallee⟩ := Option.ite_none_right_eq_some.1 hcallee
  obtain ⟨name, hname, hsame⟩ := List.any_eq_true.1 hsame
  refine hnames name hname ?_
  unfold Text.sameAscii at hsame
  rw [← Option.some.inj hcallee] at hsame
  exact (beq_iff_eq.1 hsame).symm

theorem start_lt_of_parameterName (hvalue : n.value = f.identifier? n) {name : String}
    (hname : f.parameterName n = .ok name) (hne : name ≠ "") : n.start < f.source.utf8ByteSize := by
  obtain ⟨hkind, rfl⟩ : n.kind = .parameter ∧ n.value.getD "" = name := by
    unfold parameterName Node.expect at hname
    split at hname
    · next hkind => exact ⟨hkind, Except.ok.inj hname⟩
    · cases hname
  have hidentifier : f.identifier? n = (f.fieldText? n "name").map withoutSigil := by
    unfold identifier?
    rw [hkind]
  rw [hvalue, hidentifier] at hne
  unfold fieldText? at hne
  cases hchild : f.child? n "name" with
  | none => simp [hchild] at hne
  | some c =>
    refine start_lt_of_text hf ht hstop hn (mem_children_of_child? hchild) fun hempty => hne ?_
    rw [hchild, Option.bind_some]
    unfold text at hempty
    unfold text?
    cases hslice : Text.slice? f.source c.span.start c.span.stop with
    | none => rfl
    | some word =>
      rw [hslice, Option.getD_some] at hempty
      rw [hempty]
      decide

end SourceFile

theorem sensitive_of_mem_noticesAt {cx : Context} {n : Node} {notice : Notice}
    (hnotice : notice ∈ Sensitive.rule.noticesAt cx n) :
    ∃ name, cx.file.parameterName n = .ok name ∧ Sensitive.isSensitive name = true := by
  have hcheck : Sensitive.rule.check cx n = Sensitive.check cx n := rfl
  unfold Rule.noticesAt at hnotice
  rw [hcheck] at hnotice
  unfold Sensitive.check at hnotice
  cases hname : cx.file.parameterName n with
  | error misuse => simp [hname, bind, Except.bind] at hnotice
  | ok name =>
    refine ⟨name, rfl, ?_⟩
    by_contra hnot
    simp [hname, hnot, bind, Except.bind, pure, Except.pure] at hnotice

/-- A built-in rule reports calls of certain functions and methods, and parameters with certain names. -/
theorem named_of_mem_noticesAt {r : Rule} (hr : r ∈ Catalog.builtin.rules) {cx : Context} {n : Node}
    {notice : Notice} (hnotice : notice ∈ r.noticesAt cx n) :
    (∃ names, (∀ name ∈ names, ClassName.key name ≠ "") ∧ cx.file.isNamedAny n names = true) ∨
      ∃ name, cx.file.parameterName n = .ok name ∧ Sensitive.isSensitive name = true := by
  simp only [Catalog.builtin, List.mem_cons, List.not_mem_nil, or_false] at hr
  rcases hr with rfl | rfl | rfl | rfl | rfl
  · have hcheck : notice ∈ Sink.checkUnserialize cx n := hnotice
    exact .inl ⟨["unserialize"], by decide +kernel, (List.mem_ite_nil_right.1 hcheck).1⟩
  · exact .inr (sensitive_of_mem_noticesAt hnotice)
  · have hcheck : notice ∈ Sink.checkAllowList cx n := hnotice
    exact .inl ⟨Sink.allowListMethods, by decide +kernel, (List.mem_ite_nil_right.1 hcheck).1⟩
  · have hcheck : notice ∈ Sink.checkShell cx n := hnotice
    exact .inl ⟨Sink.shellFunctions, by decide +kernel, (List.mem_ite_nil_right.1 hcheck).1⟩
  · have hcheck : notice ∈ Sink.checkRawSql cx n := hnotice
    have hraw := (List.mem_ite_nil_right.1 hcheck).1
    have hmethods : ∀ name ∈ Sink.rawMethods, ClassName.key name ≠ "" := by decide +kernel
    unfold Sink.isRawQuery at hraw
    split at hraw
    · exact .inl ⟨Sink.rawMethods, hmethods, hraw⟩
    · rcases Bool.or_eq_true_iff.1 hraw with hraw | hraw
      · exact .inl ⟨Sink.rawMethods, hmethods, hraw⟩
      · exact .inl ⟨Sink.databaseMethods, by decide +kernel, (Bool.and_eq_true_iff.1 hraw).1⟩
    · cases hraw

/-! ## The line of a finding -/

/-- The finding is at a byte offset of a text and shows the line around it. -/
structure Finding.StandsOn (x : Finding) (source : String) (offset : Nat) (before line behind : String) :
    Prop where
  around : Text.Around source offset before line behind
  line_eq : x.line = before.toList.count '\n' + 1
  column_eq : x.column = offset - before.utf8ByteSize + 1
  excerpt_eq : x.excerpt = Text.trim line

section Findings

variable {f : SourceFile} {rows : Outline} (hf : f.Mirrors rows) (ht : rows.IsTree)
  (hstop : (rows.rowAt 0).span.stop ≤ f.source.utf8ByteSize) {n : Node} (hn : f.Has n)
  {r : Rule} (hr : r ∈ Catalog.builtin.rules) {classes : Hierarchy} {x : Finding}
  (hx : x ∈ r.findingsAt ⟨f, classes⟩ n)
include hf ht hstop hn hr hx

theorem standsOn_of_mem_findingsAt :
    ∃ before line behind, x.StandsOn f.source n.start before line behind := by
  have hstart := hf.start_le_stop ht hn
  have hroot := hf.stop_le_root ht hn
  have hoffset : n.start ≤ f.source.utf8ByteSize := Nat.le_trans hstart (Nat.le_trans hroot hstop)
  obtain ⟨before, line, behind, haround⟩ := Text.exists_around f.source hoffset
  have hplace : x.place = ⟨before.toList.count '\n' + 1, n.start - before.utf8ByteSize + 1⟩ := by
    have hrow := (hf.fromRow hn).place_eq
    rw [← (hf.fromRow hn).span_eq] at hrow
    rw [place_of_mem_findingsAt hr _ hx, ← haround.place_eq]
    exact hrow
  have hline : x.line = before.toList.count '\n' + 1 := congrArg Place.line hplace
  have hexcerpt : x.excerpt = f.excerpt x.line := by
    rw [r.findingsAt_eq] at hx
    obtain ⟨notice, -, rfl⟩ := List.mem_map.1 hx
    rfl
  refine ⟨before, line, behind, haround, hline, congrArg Place.column hplace, ?_⟩
  rw [hexcerpt, hline]
  exact haround.excerpt_eq

/-- A built-in rule reports nothing at the end of a file. -/
theorem start_lt_of_mem_findingsAt (hvalue : n.value = f.identifier? n) :
    n.start < f.source.utf8ByteSize := by
  rw [r.findingsAt_eq] at hx
  obtain ⟨notice, hnotice, -⟩ := List.mem_map.1 hx
  rcases named_of_mem_noticesAt hr hnotice with ⟨names, hnames, hnamed⟩ | ⟨name, hname, hsensitive⟩
  · exact SourceFile.start_lt_of_isNamedAny hf ht hstop hn hnames hnamed
  · refine SourceFile.start_lt_of_parameterName hf ht hstop hn hvalue hname ?_
    rintro rfl
    exact absurd hsensitive (by decide +kernel)

end Findings

/-! ## Scans with and without a marker -/

namespace Scan

variable {t : FileTree} {grammar : Grammar} {path marker : String} {paths : List String} {f : SourceFile}

/-- A marker changes which lines of a file are suppressed, and nothing else. -/
theorem load_some_marker (t : FileTree) (grammar : Grammar) (marker path : String) :
    SourceFile.load t grammar (some marker) path = (SourceFile.load t grammar none path).map
      (Option.map fun f => f.suppressing (SourceFile.markedLines f.source marker)) := by
  unfold SourceFile.load
  split
  · cases t.read path with
    | error cause => rfl
    | ok source =>
      dsimp only
      cases hparse : SourceFile.parse grammar path source with
      | error fault => rfl
      | ok f =>
        obtain ⟨rows, -, rfl⟩ := SourceFile.ofParts_of_parse hparse
        have hsource := SourceFile.source_ofParts path source rows
        simp only [Option.map_some, Option.getD_some, Option.map_none, Option.getD_none, Except.map,
          SourceFile.suppressing, hsource]
  · rfl

theorem filesAt_some_marker (t : FileTree) (grammar : Grammar) (marker : String) (paths : List String) :
    filesAt (SourceFile.load t grammar (some marker)) paths =
      (filesAt (SourceFile.load t grammar none) paths).map fun f =>
        f.suppressing (SourceFile.markedLines f.source marker) := by
  induction paths with
  | nil => rfl
  | cons path paths ih =>
    rw [filesAt_cons, filesAt_cons, load_some_marker, ih]
    rcases SourceFile.load t grammar none path with fault | _ | f <;> rfl

/-- A file that is loaded without a marker can be read again under its path, has no suppressed line, and its
nodes carry their identifiers. -/
theorem of_load_none (hload : SourceFile.load t grammar none path = .ok (some f)) :
    t.read f.path = .ok f.source ∧ f.suppressed = [] ∧ ∀ {n}, f.Has n → n.value = f.identifier? n := by
  rcases load_cases t grammar none path with ⟨-, hskip⟩ | ⟨fault, -, hfault⟩ | ⟨f', hloads, hload'⟩
  · cases hskip.symm.trans hload
  · cases hfault.symm.trans hload
  · cases hload'.symm.trans hload
    have hread := read_of_load hload
    rw [← hloads.path_eq] at hread
    cases hloads with
    | parsed => exact ⟨hread, rfl, (SourceFile.complete_ofParts ..).value_eq⟩

/-- Whether a finding is on a line of its file that has the marker. -/
def onMarkedLine (t : FileTree) (marker : String) (x : Finding) : Bool :=
  match t.read x.file with
  | .ok source => (SourceFile.markedLines source marker).contains x.line
  | .error _ => false

section Catalog

variable {catalog : Catalog} (hc : ∀ r ∈ catalog.rules, r ∈ Catalog.builtin.rules)
include hc

theorem reported_suppressing (hload : SourceFile.load t grammar none path = .ok (some f)) (marker : String)
    (classes : Hierarchy) :
    catalog.reported Scanner.tree ⟨f.suppressing (SourceFile.markedLines f.source marker), classes⟩ =
      (catalog.reported Scanner.tree ⟨f, classes⟩).filter fun x => !onMarkedLine t marker x := by
  obtain ⟨hread, hnone, -⟩ := of_load_none hload
  have hfound : catalog.rules.flatMap
      (Scanner.tree ⟨f.suppressing (SourceFile.markedLines f.source marker), classes⟩) =
        catalog.rules.flatMap (Scanner.tree ⟨f, classes⟩) :=
    List.flatMap_congr fun r hr => findings_suppressing f _ classes (hc r hr)
  unfold Catalog.reported
  rw [hfound, List.filter_filter]
  refine List.filter_congr fun x hx => ?_
  obtain ⟨r, -, hx⟩ := List.mem_flatMap.1 hx
  obtain ⟨notice, rfl⟩ := r.exists_report hx
  have honLine : onMarkedLine t marker (r.report f notice) =
      (SourceFile.markedLines f.source marker).contains (r.report f notice).line := by
    have hfile : (r.report f notice).file = f.path := rfl
    unfold onMarkedLine
    rw [hfile, hread]
  simp [honLine, hnone, SourceFile.suppressing]

theorem findings_some_marker (t : FileTree) (grammar : Grammar) (options : ScanOptions) (clock : Clock)
    (paths : List String) (marker : String) :
    (run Scanner.tree catalog { options with marker := some marker } clock
        (SourceFile.load t grammar (some marker)) paths).findings =
      (run Scanner.tree catalog { options with marker := none } clock
        (SourceFile.load t grammar none) paths).findings.filter fun x => !onMarkedLine t marker x := by
  rw [findings_run, findings_run, filesAt_some_marker, build_suppressing, List.filter_flatMap,
    List.zipIdx_map, List.filter_map, List.flatMap_map]
  refine List.flatMap_congr fun p hp => ?_
  have hfile : p.1 ∈ filesAt (SourceFile.load t grammar none) paths :=
    List.fst_mem_of_mem_zipIdx (List.mem_filter.1 hp).1
  obtain ⟨path, -, hload⟩ := (mem_filesAt _ _).1 hfile
  exact reported_suppressing hc hload marker _

end Catalog

/-- A finding of a built-in rule in a file is at the first byte of its node and shows the line around it. A scan
with a marker reports the findings of the scan without it, less those on lines that have the marker; the
carriage return in front of a line feed is not part of the line. -/
theorem marker_hides_lines {grammar : Grammar} (hg : grammar.GivesTrees) {catalog : Catalog}
    (hc : ∀ r ∈ catalog.rules, r ∈ Catalog.builtin.rules) (t : FileTree) (options : ScanOptions)
    (clock : Clock) (paths : List String) (marker : String) :
    let scan (marker : Option String) := run Scanner.tree catalog { options with marker := marker } clock
      (SourceFile.load t grammar marker) paths
    (∀ path source f, SourceFile.parse grammar path source = .ok f → ∀ classes,
      ∀ r ∈ Catalog.builtin.rules, ∀ n, f.Has n → ∀ x ∈ r.findingsAt ⟨f, classes⟩ n,
        ∃ before line behind, x.StandsOn source n.start before line behind) ∧
      ∃ hidden : Finding → Bool,
        (scan (some marker)).findings = (scan none).findings.filter (fun x => !hidden x) ∧
        ∀ x ∈ (scan none).findings, ∃ f r n before line behind,
          f ∈ filesAt (SourceFile.load t grammar none) paths ∧ t.read x.file = .ok f.source ∧
          r ∈ catalog.rules ∧ f.Has n ∧ x ∈ r.findingsAt ⟨f, (scan none).classes⟩ n ∧
          x.StandsOn f.source n.start before line behind ∧
          hidden x = Text.contains (Text.withoutReturn line behind) marker := by
  intro scan
  refine ⟨fun path source f hparse classes r hr n hn x hx => ?_, onMarkedLine t marker,
    findings_some_marker hc t grammar options clock paths marker, fun x hx => ?_⟩
  · obtain ⟨rows, ht, hstop, hf, -⟩ := SourceFile.mirrors_of_parse hg hparse
    obtain ⟨rows', -, rfl⟩ := SourceFile.ofParts_of_parse hparse
    have hstands := standsOn_of_mem_findingsAt hf ht hstop hn hr hx
    rw [SourceFile.source_ofParts] at hstands
    exact hstands
  · obtain ⟨f, hfile, r, hrule, hx⟩ := mem_findings_run hx
    obtain ⟨path, -, hload⟩ := (mem_filesAt _ _).1 hfile
    obtain ⟨rows, ht, hstop, hf⟩ := mirrors_of_load hg hload
    obtain ⟨hread, -, hvalue⟩ := of_load_none hload
    have hfound := hx
    unfold Scanner.tree at hfound
    rw [r.findings_of_mirrors hf ht] at hfound
    obtain ⟨n, hn, hfound⟩ := List.mem_flatMap.1 hfound
    have hhas : f.Has n := hf.mem_nodes.1 (List.mem_filter.1 hn).1
    obtain ⟨before, line, behind, hstands⟩ := standsOn_of_mem_findingsAt hf ht hstop hhas (hc r hrule) hfound
    have hlt := start_lt_of_mem_findingsAt hf ht hstop hhas (hc r hrule) hfound (hvalue hhas)
    have hpath : x.file = f.path := by
      obtain ⟨notice, rfl⟩ := r.exists_report hx
      rfl
    rw [← hpath] at hread
    refine ⟨f, r, n, before, line, behind, hfile, hread, hrule, hhas, hfound, hstands, ?_⟩
    rw [Bool.eq_iff_iff, ← hstands.around.mem_markedLines hlt]
    unfold onMarkedLine
    rw [hread, List.contains_iff_mem, hstands.line_eq]

/-- Two commands from a superglobal, on two lines that a carriage return and a line feed divide. -/
def returnSource : String := "<?php exec($_GET);\r\nexec($_GET);"

/-- The outline of `returnSource`. -/
def returnOutline : Outline :=
  [⟨0, "program", none, ⟨0, 32⟩⟩, ⟨1, "php_tag", none, ⟨0, 5⟩⟩,
    ⟨1, "expression_statement", none, ⟨6, 18⟩⟩, ⟨2, "function_call_expression", none, ⟨6, 17⟩⟩,
    ⟨3, "name", some "function", ⟨6, 10⟩⟩, ⟨3, "arguments", some "arguments", ⟨10, 17⟩⟩,
    ⟨4, "argument", none, ⟨11, 16⟩⟩, ⟨5, "variable_name", none, ⟨11, 16⟩⟩,
    ⟨6, "name", none, ⟨12, 16⟩⟩, ⟨1, "expression_statement", none, ⟨20, 32⟩⟩,
    ⟨2, "function_call_expression", none, ⟨20, 31⟩⟩, ⟨3, "name", some "function", ⟨20, 24⟩⟩,
    ⟨3, "arguments", some "arguments", ⟨24, 31⟩⟩, ⟨4, "argument", none, ⟨25, 30⟩⟩,
    ⟨5, "variable_name", none, ⟨25, 30⟩⟩, ⟨6, "name", none, ⟨26, 30⟩⟩]

/-- The grammar that knows this source. -/
def returnGrammar : Grammar := .ofSamples [(returnSource, returnOutline)]

/-- A directory with the source. -/
def returnTree : FileTree where
  root := .dir [("a.php", .file (.ofText returnSource))]

/-- The one rule that reports the commands. -/
def returnCatalog : Catalog := ⟨[Sink.commandInjection]⟩

/-- The marker `<?php` hides the first command. A carriage return in the marker is on neither line, although
there is one in the text between them. -/
theorem marker_hides_lines_returnSource :
    let scan (marker : Option String) := run Scanner.tree returnCatalog { marker := marker } (fun _ _ => 0)
      (SourceFile.load returnTree returnGrammar marker) ["a.php"]
    returnGrammar.GivesTrees ∧ (∀ r ∈ returnCatalog.rules, r ∈ Catalog.builtin.rules) ∧
      (scan none).findings.map (fun x => (x.line, x.column, x.excerpt)) =
        [(1, 7, "<?php exec($_GET);"), (2, 1, "exec($_GET);")] ∧
      (scan (some "<?php")).findings.map (·.line) = [2] ∧
      (scan (some ";\r")).findings = (scan none).findings ∧
      ∃ hidden : Finding → Bool,
        (scan (some "<?php")).findings = (scan none).findings.filter (fun x => !hidden x) ∧
        ∀ x ∈ (scan none).findings, ∃ f r n before line behind,
          f ∈ filesAt (SourceFile.load returnTree returnGrammar none) ["a.php"] ∧
          returnTree.read x.file = .ok f.source ∧ r ∈ returnCatalog.rules ∧ f.Has n ∧
          x ∈ r.findingsAt ⟨f, (scan none).classes⟩ n ∧
          x.StandsOn f.source n.start before line behind ∧
          hidden x = Text.contains (Text.withoutReturn line behind) "<?php" := by
  intro scan
  have hg : returnGrammar.GivesTrees := Grammar.givesTrees_ofSamples fun p hp => by
    obtain rfl := List.mem_singleton.1 hp
    exact ⟨by constructor <;> decide +kernel, by decide +kernel⟩
  have hc : ∀ r ∈ returnCatalog.rules, r ∈ Catalog.builtin.rules := by simp [returnCatalog, Catalog.builtin]
  exact ⟨hg, hc, by decide +kernel, by decide +kernel, by decide +kernel,
    (marker_hides_lines hg hc returnTree {} (fun _ _ => 0) ["a.php"] "<?php").2⟩

end Scan

end PhpAudit
