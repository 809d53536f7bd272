import PhpAudit.Proofs.Comment.Arena
import PhpAudit.Proofs.Comment.Clear
import PhpAudit.Proofs.Tree.Complete

/-!
# Identifiers and full names of a commented file

The passes that fill in identifiers and full names keep two files twins (`Twin.filled`). An identifier is
read from a text, and a text stays if the comment does not fall into it (`identifier?_lift`).
-/

namespace PhpAudit.Insertion

open SourceFile (Filled)

variable {g : Insertion} {f f' : SourceFile}

/-! ## Passes -/

/-- Twins whose identifiers and full names are filled in are twins again. -/
theorem Twin.filled (ht : g.Twin f f') {h h' : Node → Node} {k k' : SourceFile}
    (hf : Filled h f k) (hf' : Filled h' f' k') (hlinked : k.Linked) (hlinked' : k'.Linked)
    (hcomplete : k'.Complete) : g.Twin k k' := by
  have hsize : k.size = f.size := by
    unfold SourceFile.size
    rw [hf.nodes_eq, Array.size_map]
  have hsize' : k'.size = f'.size := by
    unfold SourceFile.size
    rw [hf'.nodes_eq, Array.size_map]
  have hold : ∀ {i n}, k.node? i = some n → ∃ m, f.node? i = some m ∧ h m = n := fun hn =>
    Option.map_eq_some_iff.1 ((hf.node?_eq _).symm.trans hn)
  refine ⟨hlinked, hlinked', ?_, ht.site_pos, hsize ▸ ht.site_le, hf.source_eq.trans ht.source_eq,
    hf'.source_eq.trans ht.source_eq', ?_, ?_, ?_, ?_⟩
  · rw [hsize, hsize', ht.size_eq]
  · intro i n hn
    obtain ⟨m, hm, rfl⟩ := hold hn
    rw [hf.fills.span_eq]
    exact ht.range hm
  · intro i n hn
    obtain ⟨m, hm, rfl⟩ := hold hn
    rw [hf.fills.span_eq]
    exact ht.span_ne hm
  · obtain ⟨c, hnode, hc⟩ := ht.comment
    have hnode' : k'.node? g.site = some (h' c) := by rw [hf'.node?_eq, hnode]; rfl
    have hkind : (h' c).kind = .comment := (hf'.fills.kind_eq c).trans hc.kind_eq
    refine ⟨h' c, hnode', (hf'.fills.id_eq c).trans hc.id_eq, hkind,
      (hf'.fills.form_eq c).trans hc.form_eq, (hf'.fills.field_eq c).trans hc.field_eq,
      (hf'.fills.children_eq c).trans hc.children_eq, ?_, ?_⟩
    · rw [hcomplete.value_eq (hlinked'.has hnode')]
      unfold SourceFile.identifier?
      rw [hkind]
    · rw [hcomplete.resolved_eq (hlinked'.has hnode')]
      unfold SourceFile.fullName?
      rw [hkind]
      rfl
  · intro i n hn
    obtain ⟨m, hm, rfl⟩ := hold hn
    obtain ⟨m', hm', hsame⟩ := ht.same hm
    obtain ⟨v, r, heq⟩ := hf.fills m
    obtain ⟨v', r', heq'⟩ := hf'.fills m'
    refine ⟨h' m', by rw [hf'.node?_eq, hm']; rfl, ?_⟩
    rw [heq, heq']
    exact ⟨hsame.id_eq, hsame.parent_eq, hsame.children_eq, hsame.kind_eq, hsame.form_eq,
      hsame.field_eq, hsame.line_eq, hsame.start_eq, hsame.stop_eq⟩

/-- The file without the comment and the file with it are twins. -/
theorem twin (hg : g.Valid) : g.Twin g.plain g.commented := by
  obtain ⟨h, hfilled, -⟩ :=
    SourceFile.filled_ofParts g.path g.source (g.rowsBefore ++ g.rowsAfter)
  obtain ⟨h', hfilled', -⟩ := SourceFile.filled_ofParts g.path g.commentedSource
    (g.rowsBefore.map g.row ++ g.commentRow :: g.rowsAfter.map g.row)
  exact (twin_ofOutline hg).filled hfilled hfilled' (SourceFile.linked_ofParts ..)
    (SourceFile.linked_ofParts ..) (SourceFile.complete_ofParts ..)

theorem complete_plain (g : Insertion) : g.plain.Complete := SourceFile.complete_ofParts ..

theorem complete_commented (g : Insertion) : g.commented.Complete := SourceFile.complete_ofParts ..

/-! ## Identifiers -/

/-- Kinds of nodes whose identifier matters to the queries. -/
def valueKinds : List Kind := .var :: .attr :: namedKinds

theorem value_of_propertyAccess (hf : f.Complete) {n : Node} (hn : f.Has n)
    (hkind : n.kind = .propertyAccess) :
    n.value = ((f.child? n "name").bind f.text?).map SourceFile.withoutSigil := by
  rw [hf.value_eq hn]
  unfold SourceFile.identifier? SourceFile.fieldText?
  rw [hkind]

section Identifiers
variable (hg : g.Valid) (hc : g.Clear) {n : Node} (hn : g.plain.Has n)
include hg hc hn

theorem text?_lift (hread : n.kind ∈ textKinds ∨ n.form ∈ textForms) :
    g.commented.text? (g.lift g.commented n) = g.plain.text? n := by
  refine (twin hg).text?_lift hn fun hs => ?_
  obtain ⟨hkind, hform⟩ := hc.names n hn hs
  exact hread.elim hkind hform

theorem text_lift (hread : n.kind ∈ textKinds ∨ n.form ∈ textForms) :
    g.commented.text (g.lift g.commented n) = g.plain.text n :=
  congrArg (Option.getD · "") (text?_lift hg hc hn hread)

theorem fieldText?_lift (hkind : n.kind ∈ namedKinds) :
    g.commented.fieldText? (g.lift g.commented n) "name" = g.plain.fieldText? n "name" := by
  have ht := twin hg
  unfold SourceFile.fieldText?
  rw [ht.child?_lift hn, Option.bind_map]
  refine Option.bind_congr fun m hm => ?_
  have hchild := SourceFile.mem_children_of_child? hm
  have hhas := ht.linked.has_of_mem_children hchild
  refine ht.text?_lift hhas fun hs => ?_
  exact hc.declared n hn (.inl hkind) m hm hs

theorem formText?_lift {forms : List String} (hforms : ∀ form ∈ forms, form ∈ textForms) :
    g.commented.formText? (g.lift g.commented n) forms = g.plain.formText? n forms := by
  have ht := twin hg
  have hcomment : "comment" ∉ forms := fun h => absurd (hforms _ h) (by decide)
  unfold SourceFile.formText?
  rw [ht.find?_children hn (q := fun c => forms.contains c.form), Option.bind_map]
  · refine Option.bind_congr fun m hm => ?_
    have hform : m.form ∈ forms := by simpa using List.find?_some hm
    have hhas := ht.linked.has_of_mem_children (List.mem_of_find?_eq_some hm)
    exact text?_lift hg hc hhas (.inr (hforms _ hform))
  · intro c hc
    simp [hc.form_eq, hcomment]
  · intro m hm
    rw [(ht.same_child hm).form_eq]

theorem identifier?_lift (hkind : n.kind ∈ valueKinds) :
    g.commented.identifier? (g.lift g.commented n) = g.plain.identifier? n := by
  have hname := fun h => fieldText?_lift hg hc hn h
  unfold SourceFile.identifier?
  rw [((twin hg).same_lift hn).kind_eq]
  simp only [valueKinds, namedKinds, List.mem_cons, List.not_mem_nil, or_false] at hkind
  rcases hkind with hkind | hkind | hkind | hkind | hkind | hkind | hkind | hkind | hkind <;>
    rw [hkind] at hname ⊢ <;> dsimp only
  · rw [text?_lift hg hc hn (.inl (by rw [hkind]; decide))]
  · exact formText?_lift hg hc hn (by decide)
  · exact hname (by decide)
  · exact hname (by decide)
  · exact hname (by decide)
  · exact hname (by decide)
  · exact hname (by decide)
  · rw [hname (by decide), formText?_lift hg hc hn (by decide)]
  · rw [hname (by decide)]

/-- The identifiers that matter stay. -/
theorem value_lift (hkind : n.kind ∈ valueKinds) : (g.lift g.commented n).value = n.value := by
  rw [(complete_commented g).value_eq ((twin hg).has_lift hn), identifier?_lift hg hc hn hkind,
    (complete_plain g).value_eq hn]

omit hc hn in
/-- A name with the comment in it is not `request`. -/
theorem ne_request (x y : String) :
    SourceFile.withoutSigil (x ++ (g.comment ++ y)) ≠ "request" := by
  have hmarked : marked (SourceFile.withoutSigil (x ++ (g.comment ++ y))) = true :=
    marked_stripStart rfl (marked_comment hg x y)
  intro h
  rw [h] at hmarked
  exact absurd hmarked (by decide)

omit hc in
/-- A property whose name has the comment in it is not called `request`. -/
theorem ne_request_of_straddles (hkind : n.kind = .propertyAccess) {m : Node}
    (hm : g.plain.child? n "name" = some m) (hs : g.Straddles m.span) :
    (g.lift g.commented n).value ≠ some "request" := by
  have ht := twin hg
  have hhas := ht.linked.has_of_mem_children (SourceFile.mem_children_of_child? hm)
  obtain ⟨x, y, -, -, hxy⟩ := ht.text?_of_straddles hhas hs
  rw [value_of_propertyAccess (complete_commented g) (ht.has_lift hn)
    ((ht.same_lift hn).kind_eq.trans hkind), ht.child?_lift hn, hm, Option.map_some, Option.bind_some,
    hxy, Option.map_some]
  exact fun h => ne_request hg x y (Option.some.inj h)

/-- A property is called `request` with the comment exactly if it is without. -/
theorem isRequest_lift (hkind : n.kind = .propertyAccess) :
    ((g.lift g.commented n).value == some "request") = (n.value == some "request") := by
  have ht := twin hg
  have hvalue := value_of_propertyAccess (complete_plain g) hn hkind
  have hvalue' := value_of_propertyAccess (complete_commented g) (ht.has_lift hn)
    ((ht.same_lift hn).kind_eq.trans hkind)
  rw [ht.child?_lift hn] at hvalue'
  cases hm : g.plain.child? n "name" with
  | none =>
    rw [hm] at hvalue hvalue'
    rw [hvalue, hvalue', Option.map_none, Option.bind_none, Option.bind_none]
  | some m =>
    by_cases hs : g.Straddles m.span
    · have hnot : n.value ≠ some "request" := fun h =>
        hc.declared n hn (.inr ⟨hkind, h⟩) m hm hs
      rw [beq_eq_false_iff_ne.2 hnot,
        beq_eq_false_iff_ne.2 (ne_request_of_straddles hg hn hkind hm hs)]
    · have hhas := ht.linked.has_of_mem_children (SourceFile.mem_children_of_child? hm)
      rw [hm] at hvalue hvalue'
      rw [hvalue, hvalue', Option.map_some, Option.bind_some, Option.bind_some, ht.text?_lift hhas hs]

end Identifiers

end PhpAudit.Insertion
