import Mathlib.Data.List.Flatten
import PhpAudit.Proofs.Query.Growth
import PhpAudit.Proofs.Scan.Evaluation
import PhpAudit.Proofs.Tree.Nesting
import PhpAudit.Rule.Builtin

/-!
# A longer scan keeps every finding

The built-in rules report more, never less, when the hierarchy grows around a file (`findings_grows`). So
a scan of further paths reports every finding of the shorter one, unchanged and in the same order
(`findings_sublist_append`), if the names of the classes in the shorter one are settled. A class whose name is not
settled is unknown under its own name, and a later file can take its place (`not_sublist_of_unsettled`).
-/

namespace PhpAudit

open Context (Grows)

variable {f : SourceFile} {h h' : Hierarchy}

/-! ## Rules -/

theorem ifFirstTainted_grows (hg : Grows f h h') {n : Node} (hn : f.Rooted n)
    (message : Node → String) :
    (Sink.ifFirstTainted ⟨f, h⟩ n message).Sublist (Sink.ifFirstTainted ⟨f, h'⟩ n message) := by
  unfold Sink.ifFirstTainted
  cases hfirst : f.argument? n 0 with
  | none => exact List.Sublist.refl _
  | some first =>
    have hrooted : f.Rooted first :=
      hg.linked.stable_rooted.arguments hn first (List.mem_of_getElem? hfirst)
    dsimp only
    split
    · next ht =>
      rw [if_pos (Context.isTainted_grows hg hrooted ht)]
    · exact List.nil_sublist _

theorem checkRawSql_grows (hg : Grows f h h') {n : Node} (hn : f.Rooted n) :
    (Sink.checkRawSql ⟨f, h⟩ n).Sublist (Sink.checkRawSql ⟨f, h'⟩ n) := by
  have hraw : Sink.isRawQuery ⟨f, h'⟩ n = Sink.isRawQuery ⟨f, h⟩ n := by
    unfold Sink.isRawQuery
    rw [Context.staticClass?_eq hg hn]
  unfold Sink.checkRawSql
  rw [hraw]
  split
  · exact ifFirstTainted_grows hg hn _
  · exact List.Sublist.refl _

theorem checkAllowList_grows (hg : Grows f h h') {n : Node} (hn : f.Rooted n) :
    (Sink.checkAllowList ⟨f, h⟩ n).Sublist (Sink.checkAllowList ⟨f, h'⟩ n) := by
  have hs := hg.linked.stable_rooted
  have hclass : (f.chainHead? n).bind (Context.mk f h').classOf? =
      (f.chainHead? n).bind (Context.mk f h).classOf? :=
    Option.bind_congr fun head hhead => Context.classOf?_eq hg (hs.chainHead? hn hhead)
  unfold Sink.checkAllowList
  dsimp only
  rw [hclass]
  split
  · split
    · next name hname =>
      split
      · next hreport =>
        have hreport' : (h'.isA name Sink.queryBuilder &&
            (f.arguments n).any (Context.mk f h').isTainted) = true := by
          rw [Bool.and_eq_true] at hreport ⊢
          refine ⟨hg.extends_classes.isA hreport.1, ?_⟩
          obtain ⟨m, hm, ht⟩ := List.any_eq_true.1 hreport.2
          exact List.any_eq_true.2 ⟨m, hm, Context.isTainted_grows hg (hs.arguments hn m hm) ht⟩
        rw [if_pos hreport']
        exact List.Sublist.refl _
      · exact List.nil_sublist _
    · exact List.nil_sublist _
  · exact List.nil_sublist _

/-- A built-in rule finds at a node what it found before, and maybe more. -/
theorem findingsAt_grows (hg : Grows f h h') {r : Rule} (hr : r ∈ Catalog.builtin.rules) {n : Node}
    (hn : f.Rooted n) : (r.findingsAt ⟨f, h⟩ n).Sublist (r.findingsAt ⟨f, h'⟩ n) := by
  simp only [Catalog.builtin, List.mem_cons, List.not_mem_nil, or_false] at hr
  rcases hr with rfl | rfl | rfl | rfl | rfl
  · refine List.Sublist.map _ ?_
    unfold Sink.checkUnserialize
    dsimp only
    split
    · exact ifFirstTainted_grows hg hn _
    · exact List.Sublist.refl _
  · exact List.Sublist.refl _
  · exact (checkAllowList_grows hg hn).map _
  · refine List.Sublist.map _ ?_
    unfold Sink.checkShell
    dsimp only
    split
    · exact ifFirstTainted_grows hg hn _
    · exact List.Sublist.refl _
  · exact (checkRawSql_grows hg hn).map _

theorem findings_grows (hg : Grows f h h') {r : Rule} (hr : r ∈ Catalog.builtin.rules) :
    (r.findings ⟨f, h⟩).Sublist (r.findings ⟨f, h'⟩) := by
  unfold Rule.findings
  dsimp only
  cases hroot : f.root? with
  | none => exact List.Sublist.refl _
  | some root =>
    refine List.Sublist.flatMap_right _ fun n hn => findingsAt_grows hg hr ?_
    exact (hg.linked.rooted_iff hroot).2 (List.mem_filter.1 hn).1

/-! ## Scans -/

theorem reported_grows {catalog : Catalog} (hc : ∀ r ∈ catalog.rules, r ∈ Catalog.builtin.rules)
    (hg : Grows f h h') :
    (catalog.reported Scanner.tree ⟨f, h⟩).Sublist (catalog.reported Scanner.tree ⟨f, h'⟩) :=
  List.Sublist.filter _
    (List.Sublist.flatMap_right catalog.rules fun r hr => findings_grows hg (hc r hr))

namespace Scan

variable {t : FileTree} {grammar : Grammar} {marker : Option String}

/-- A loaded file grows with its project. -/
theorem grows_of_load {path : String} (hload : SourceFile.load t grammar marker path = .ok (some f))
    (hnames : f.NamesSettled) {files : List SourceFile} (hmem : f ∈ files) (more : List SourceFile) :
    Grows f (Hierarchy.build files) (Hierarchy.build (files ++ more)) :=
  have hlinked := linked_of_load hload
  ⟨hlinked, SourceFile.covered_build hlinked hnames hmem, Hierarchy.extends_build files more⟩

/-- A file that runs a property of an unknown class `B` and a superglobal. -/
def shortSource : String :=
  "<?php function f(B $b){exec($b->q);}exec($_GET);"

/-- The outline of `shortSource`. -/
def shortOutline : Outline :=
  [⟨0, "program", none, ⟨0, 48⟩⟩, ⟨1, "php_tag", none, ⟨0, 5⟩⟩,
    ⟨1, "function_definition", none, ⟨6, 36⟩⟩, ⟨2, "name", some "name", ⟨15, 16⟩⟩,
    ⟨2, "formal_parameters", some "parameters", ⟨16, 22⟩⟩, ⟨3, "simple_parameter", none, ⟨17, 21⟩⟩,
    ⟨4, "union_type", some "type", ⟨17, 18⟩⟩, ⟨5, "named_type", none, ⟨17, 18⟩⟩,
    ⟨6, "name", none, ⟨17, 18⟩⟩, ⟨4, "variable_name", some "name", ⟨19, 21⟩⟩,
    ⟨5, "name", none, ⟨20, 21⟩⟩, ⟨2, "compound_statement", some "body", ⟨22, 36⟩⟩,
    ⟨3, "expression_statement", none, ⟨23, 35⟩⟩, ⟨4, "function_call_expression", none, ⟨23, 34⟩⟩,
    ⟨5, "name", some "function", ⟨23, 27⟩⟩, ⟨5, "arguments", some "arguments", ⟨27, 34⟩⟩,
    ⟨6, "argument", none, ⟨28, 33⟩⟩, ⟨7, "member_access_expression", none, ⟨28, 33⟩⟩,
    ⟨8, "variable_name", some "object", ⟨28, 30⟩⟩, ⟨9, "name", none, ⟨29, 30⟩⟩,
    ⟨8, "name", some "name", ⟨32, 33⟩⟩, ⟨1, "expression_statement", none, ⟨36, 48⟩⟩,
    ⟨2, "function_call_expression", none, ⟨36, 47⟩⟩, ⟨3, "name", some "function", ⟨36, 40⟩⟩,
    ⟨3, "arguments", some "arguments", ⟨40, 47⟩⟩, ⟨4, "argument", none, ⟨41, 46⟩⟩,
    ⟨5, "variable_name", none, ⟨41, 46⟩⟩, ⟨6, "name", none, ⟨42, 46⟩⟩]

/-- A file that declares `B` as a request class. -/
def classSource : String :=
  "<?php class B extends \\Illuminate\\Http\\Request{}"

/-- The outline of `classSource`. -/
def classOutline : Outline :=
  [⟨0, "program", none, ⟨0, 48⟩⟩, ⟨1, "php_tag", none, ⟨0, 5⟩⟩,
    ⟨1, "class_declaration", none, ⟨6, 48⟩⟩, ⟨2, "name", some "name", ⟨12, 13⟩⟩,
    ⟨2, "base_clause", none, ⟨14, 46⟩⟩, ⟨3, "qualified_name", none, ⟨22, 46⟩⟩,
    ⟨4, "namespace_name_as_prefix", none, ⟨22, 39⟩⟩, ⟨5, "namespace_name", none, ⟨23, 38⟩⟩,
    ⟨6, "name", none, ⟨23, 33⟩⟩, ⟨6, "name", none, ⟨34, 38⟩⟩, ⟨4, "name", none, ⟨39, 46⟩⟩,
    ⟨2, "declaration_list", some "body", ⟨46, 48⟩⟩]

/-- A file with a class that extends `B`. -/
def derivedSource : String :=
  "<?php class C extends B{}"

/-- The outline of `derivedSource`. -/
def derivedOutline : Outline :=
  [⟨0, "program", none, ⟨0, 25⟩⟩, ⟨1, "php_tag", none, ⟨0, 5⟩⟩,
    ⟨1, "class_declaration", none, ⟨6, 25⟩⟩, ⟨2, "name", some "name", ⟨12, 13⟩⟩,
    ⟨2, "base_clause", none, ⟨14, 23⟩⟩, ⟨3, "name", none, ⟨22, 23⟩⟩,
    ⟨2, "declaration_list", some "body", ⟨23, 25⟩⟩]

/-- The grammar that knows the three sources. -/
def laterClassGrammar : Grammar :=
  .ofSamples [(shortSource, shortOutline), (classSource, classOutline), (derivedSource, derivedOutline)]

/-- A directory with the three files. -/
def laterClassTree : FileTree where
  root := .dir [("a.php", .file (.ofText shortSource)), ("b.php", .file (.ofText classSource)),
    ("c.php", .file (.ofText derivedSource))]

/-- A request class in a namespace of three segments, the first two of which are an ideographic space. Such a
space is a letter of an identifier. -/
def hiddenSource : String :=
  "<?php namespace \u3000\\\u3000\\\u3000X;class C extends \\Request" ++
    "\x7bfunction f()\x7bexec(parent::all());\x7d\x7d"

/-- The outline of `hiddenSource`. -/
def hiddenOutline : Outline :=
  [⟨0, "program", none, ⟨0, 89⟩⟩, ⟨1, "php_tag", none, ⟨0, 5⟩⟩, ⟨1, "namespace_definition", none, ⟨6, 29⟩⟩,
    ⟨2, "namespace_name", some "name", ⟨16, 28⟩⟩, ⟨3, "name", none, ⟨16, 19⟩⟩, ⟨3, "name", none, ⟨20, 23⟩⟩,
    ⟨3, "name", none, ⟨24, 28⟩⟩, ⟨1, "class_declaration", none, ⟨29, 89⟩⟩, ⟨2, "name", some "name", ⟨35, 36⟩⟩,
    ⟨2, "base_clause", none, ⟨37, 53⟩⟩, ⟨3, "qualified_name", none, ⟨45, 53⟩⟩,
    ⟨4, "namespace_name_as_prefix", none, ⟨45, 46⟩⟩, ⟨4, "name", none, ⟨46, 53⟩⟩,
    ⟨2, "declaration_list", some "body", ⟨53, 89⟩⟩, ⟨3, "method_declaration", none, ⟨54, 88⟩⟩,
    ⟨4, "name", some "name", ⟨63, 64⟩⟩, ⟨4, "formal_parameters", some "parameters", ⟨64, 66⟩⟩,
    ⟨4, "compound_statement", some "body", ⟨66, 88⟩⟩, ⟨5, "expression_statement", none, ⟨67, 87⟩⟩,
    ⟨6, "function_call_expression", none, ⟨67, 86⟩⟩, ⟨7, "name", some "function", ⟨67, 71⟩⟩,
    ⟨7, "arguments", some "arguments", ⟨71, 86⟩⟩, ⟨8, "argument", none, ⟨72, 85⟩⟩,
    ⟨9, "scoped_call_expression", none, ⟨72, 85⟩⟩, ⟨10, "relative_scope", some "scope", ⟨72, 78⟩⟩,
    ⟨10, "name", some "name", ⟨80, 83⟩⟩, ⟨10, "arguments", some "arguments", ⟨83, 85⟩⟩]

/-- A class of the same name that extends something else, in a namespace with one such segment more. -/
def hidingSource : String :=
  "<?php namespace \u3000\\\u3000\\\u3000\\\u3000X;class C extends Foo\x7b\x7d"

/-- The outline of `hidingSource`. -/
def hidingOutline : Outline :=
  [⟨0, "program", none, ⟨0, 54⟩⟩, ⟨1, "php_tag", none, ⟨0, 5⟩⟩, ⟨1, "namespace_definition", none, ⟨6, 33⟩⟩,
    ⟨2, "namespace_name", some "name", ⟨16, 32⟩⟩, ⟨3, "name", none, ⟨16, 19⟩⟩, ⟨3, "name", none, ⟨20, 23⟩⟩,
    ⟨3, "name", none, ⟨24, 27⟩⟩, ⟨3, "name", none, ⟨28, 32⟩⟩, ⟨1, "class_declaration", none, ⟨33, 54⟩⟩,
    ⟨2, "name", some "name", ⟨39, 40⟩⟩, ⟨2, "base_clause", none, ⟨41, 52⟩⟩, ⟨3, "name", none, ⟨49, 52⟩⟩,
    ⟨2, "declaration_list", some "body", ⟨52, 54⟩⟩]

/-- The grammar that knows the two sources. -/
def hidingGrammar : Grammar := .ofSamples [(hiddenSource, hiddenOutline), (hidingSource, hidingOutline)]

/-- A directory with the two files. -/
def hidingTree : FileTree where
  root := .dir [("a.php", .file (.ofText hiddenSource)), ("b.php", .file (.ofText hidingSource))]

end Scan

end PhpAudit
