import Mathlib.Data.List.Basic
import PhpAudit.Proofs.Rule.Notices
import PhpAudit.Proofs.Tree.Lowering
import PhpAudit.Scan.Run

/-!
# A scan follows the text

The walk of a scan starts at the root, so it offers every node of the kinds that a rule asks for once, in the
order of the arena (`Rule.findings_of_mirrors`). Ids grow with the offsets of nodes, and lines and columns grow
with offsets (`Place.ofOffset_mono`). So the findings of a built-in rule stand in the order of the text
(`Scan.tree_visits`).
-/

namespace PhpAudit

/-! ## Places -/

/-- The place is an earlier line, or the same line and no later column. -/
def Place.NotAfter (p q : Place) : Prop :=
  p.line < q.line ∨ p.line = q.line ∧ p.column ≤ q.column

def Finding.place (x : Finding) : Place := ⟨x.line, x.column⟩

theorem Place.ofOffset_mono (starts : List Nat) {i j : Nat} (h : i ≤ j) :
    (Place.ofOffset starts i).NotAfter (.ofOffset starts j) := by
  have hlines : (starts.filter (· ≤ i)).Sublist (starts.filter (· ≤ j)) := by
    refine List.monotone_filter_right starts fun a ha => ?_
    exact decide_eq_true (Nat.le_trans (of_decide_eq_true ha) h)
  unfold NotAfter ofOffset
  rcases Nat.lt_or_eq_of_le hlines.length_le with hlt | heq
  · exact .inl hlt
  · -- the same line starts are behind both, so the columns count from the same one
    rw [hlines.eq_of_length heq]
    refine .inr ⟨rfl, ?_⟩
    dsimp only
    omega

/-! ## Nodes -/

variable {f : SourceFile} {rows : Outline} {r : Rule}

/-- A rule is offered the nodes of its kinds in the order of the arena. -/
theorem Rule.findings_of_mirrors (hf : f.Mirrors rows) (ht : rows.IsTree) (r : Rule)
    (classes : Hierarchy) :
    r.findings ⟨f, classes⟩ =
      (f.nodes.toList.filter fun n => r.kinds.contains n.kind).flatMap (r.findingsAt ⟨f, classes⟩) := by
  obtain ⟨root, hroot, -⟩ := hf.root
  unfold Rule.findings
  dsimp only
  rw [hroot]
  dsimp only
  rw [hf.descendants_root ht hroot]

/-- The nodes of an arena stand in the order of the text. -/
theorem SourceFile.Mirrors.places_pairwise (hf : f.Mirrors rows) :
    f.nodes.toList.Pairwise fun n m => n.place.NotAfter m.place := by
  refine List.pairwise_iff_getElem.2 fun i j hi hj hlt => ?_
  rw [Array.length_toList] at hi hj
  have hn : f.node? i = some f.nodes[i] := Array.getElem?_eq_getElem hi
  have hm : f.node? j = some f.nodes[j] := Array.getElem?_eq_getElem hj
  have hstart := hf.start_le (hf.has hn) (hf.has hm)
    (by rw [hf.id_eq hn, hf.id_eq hm]; exact Nat.le_of_lt hlt)
  rw [(hf.fromRow hn).span_eq, (hf.fromRow hm).span_eq] at hstart
  rw [Array.getElem_toList, Array.getElem_toList, (hf.fromRow hn).place_eq, (hf.fromRow hm).place_eq]
  exact Place.ofOffset_mono _ hstart

section Builtin
variable (hr : r ∈ Catalog.builtin.rules) (cx : Context)
include hr

theorem length_findingsAt_le (n : Node) : (r.findingsAt cx n).length ≤ 1 := by
  rw [r.findingsAt_eq, List.length_map]
  exact (concerns_noticesAt hr cx n).length_le

theorem place_of_mem_findingsAt {n : Node} {x : Finding} (hx : x ∈ r.findingsAt cx n) :
    x.place = n.place := by
  rw [r.findingsAt_eq] at hx
  obtain ⟨notice, hnotice, rfl⟩ := List.mem_map.1 hx
  rw [← (concerns_noticesAt hr cx n).node_eq hnotice]
  rfl

/-- The findings of a built-in rule on nodes that follow the text follow the text. -/
theorem findingsAt_pairwise {nodes : List Node}
    (h : nodes.Pairwise fun n m => n.place.NotAfter m.place) :
    (nodes.flatMap (r.findingsAt cx)).Pairwise fun x y => x.place.NotAfter y.place := by
  refine List.pairwise_flatMap.2 ⟨fun n _ => ?_, h.imp fun {n m} hnm x hx y hy => ?_⟩
  · have := length_findingsAt_le hr cx n
    match hfound : r.findingsAt cx n, this with
    | [], _ => exact .nil
    | [x], _ => exact List.pairwise_singleton _ x
  · rw [place_of_mem_findingsAt hr cx hx, place_of_mem_findingsAt hr cx hy]
    exact hnm

end Builtin

namespace Scan

/-- The file that is made from the outline of a syntax tree has that tree, a scan offers each of its nodes to
a rule once and in order, if the rule asks for its kind, and a built-in rule reports a node at most once, at
its place and in the order of the text. -/
theorem tree_visits (ht : rows.IsTree) (path source : String) (lines : List Nat)
    (classes : Hierarchy) :
    let f : SourceFile := { SourceFile.ofParts path source rows with suppressed := lines }
    f.Mirrors rows ∧
      (∀ r : Rule, Scanner.tree ⟨f, classes⟩ r =
        (f.nodes.toList.filter fun n => r.kinds.contains n.kind).flatMap
          (r.findingsAt ⟨f, classes⟩)) ∧
      ∀ r ∈ Catalog.builtin.rules,
        (Scanner.tree ⟨f, classes⟩ r).Pairwise (fun x y => x.place.NotAfter y.place) ∧
        ∀ n, (r.findingsAt ⟨f, classes⟩ n).length ≤ 1 ∧
          ∀ x ∈ r.findingsAt ⟨f, classes⟩ n, x.place = n.place := by
  intro f
  have hf : f.Mirrors rows := SourceFile.mirrors_ofParts ht path source lines
  have hoffers := fun r : Rule => r.findings_of_mirrors hf ht classes
  refine ⟨hf, hoffers, fun r hr => ⟨?_, fun n => ?_⟩⟩
  · unfold Scanner.tree
    rw [hoffers r]
    exact findingsAt_pairwise hr _ (hf.places_pairwise.filter _)
  · exact ⟨length_findingsAt_le hr _ n, fun x hx => place_of_mem_findingsAt hr _ hx⟩

/-- Two commands from a superglobal, on two lines. -/
def twoLinesSource : String := "<?php exec($_GET);\nexec($_GET);"

/-- The outline of `twoLinesSource`. -/
def twoLinesOutline : Outline :=
  [⟨0, "program", none, ⟨0, 31⟩⟩, ⟨1, "php_tag", none, ⟨0, 5⟩⟩,
    ⟨1, "expression_statement", none, ⟨6, 18⟩⟩, ⟨2, "function_call_expression", none, ⟨6, 17⟩⟩,
    ⟨3, "name", some "function", ⟨6, 10⟩⟩, ⟨3, "arguments", some "arguments", ⟨10, 17⟩⟩,
    ⟨4, "argument", none, ⟨11, 16⟩⟩, ⟨5, "variable_name", none, ⟨11, 16⟩⟩,
    ⟨6, "name", none, ⟨12, 16⟩⟩, ⟨1, "expression_statement", none, ⟨19, 31⟩⟩,
    ⟨2, "function_call_expression", none, ⟨19, 30⟩⟩, ⟨3, "name", some "function", ⟨19, 23⟩⟩,
    ⟨3, "arguments", some "arguments", ⟨23, 30⟩⟩, ⟨4, "argument", none, ⟨24, 29⟩⟩,
    ⟨5, "variable_name", none, ⟨24, 29⟩⟩, ⟨6, "name", none, ⟨25, 29⟩⟩]

/-- The two commands are reported in the order of their lines, and the second statement has the last seven
nodes. -/
theorem tree_visits_twoLines :
    let f : SourceFile :=
      { SourceFile.ofParts "a.php" twoLinesSource twoLinesOutline with suppressed := [2] }
    twoLinesOutline.IsTree ∧ f.Mirrors twoLinesOutline ∧
      (f.node? 9).map (fun n => (f.descendants n).map (·.id)) = some (List.range' 9 7) ∧
      (Scanner.tree ⟨f, .build [f]⟩ Sink.commandInjection).map (fun x => (x.line, x.column)) =
        [(1, 7), (2, 1)] ∧
      (Scanner.tree ⟨f, .build [f]⟩ Sink.commandInjection).Pairwise
        fun x y => x.place.NotAfter y.place := by
  intro f
  have ht : twoLinesOutline.IsTree := by constructor <;> decide +kernel
  obtain ⟨hf, -, hbuiltin⟩ := tree_visits ht "a.php" twoLinesSource [2] (.build [f])
  have hsorted := (hbuiltin Sink.commandInjection (by simp [Catalog.builtin])).1
  exact ⟨ht, hf, by decide +kernel, by decide +kernel, hsorted⟩

end Scan

end PhpAudit
