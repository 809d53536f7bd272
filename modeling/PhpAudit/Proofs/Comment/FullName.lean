import PhpAudit.Proofs.Comment.Region

/-!
# Full names of a commented file

Where a first child matters the comment is not that child (`head?_lift`), so a name stands in the position
of a class with the comment exactly if it does without. With the regions of the file this gives every node
its former full name (`resolved_lift`).
-/

namespace PhpAudit.Insertion

variable {g : Insertion} (hg : g.Valid)
include hg

/-! ## First children -/

theorem parent?_eq {p c : Node} (hp : g.commented.Has p) (hmem : c ∈ g.commented.children p)
    (hid : c.id = g.site) : g.parent? = some p := by
  have hf := (twin hg).linked'
  have hhas := hf.has_of_mem_children hmem
  unfold parent?
  rw [← hid, show g.commented.node? c.id = some c from hhas, Option.bind_some]
  exact (hf.parent?_eq_some_iff hhas).2 ⟨hp, hmem⟩

variable (hc : g.Clear)
include hc

theorem head?_lift {p : Node} (hp : g.plain.Has p)
    (hhead : p.kind ∈ headKinds ∨ p.form = SourceFile.parenthesized) :
    (g.commented.children (g.lift g.commented p)).head? =
      (g.plain.children p).head?.map (g.lift g.commented) := by
  have ht := twin hg
  have hsame := ht.same_lift hp
  refine (ht.children hp).head?_map fun a ha hid => ?_
  have hparent := parent?_eq hg (ht.has_lift hp) (List.mem_of_mem_head? ha) hid
  refine hc.head _ hparent (by rwa [hsame.kind_eq, hsame.form_eq]) ?_
  rw [← ht.linked'.map_id_children (ht.has_lift hp), List.head?_map, ha, Option.map_some, hid]

theorem head?_children_lift {p : Node} (hp : g.plain.Has p) (hhead : p.kind ∈ headKinds) :
    (g.lift g.commented p).children.head? = p.children.head?.map g.up := by
  have ht := twin hg
  rw [← ht.linked'.map_id_children (ht.has_lift hp), ← ht.linked.map_id_children hp,
    List.head?_map, List.head?_map, head?_lift hg hc hp (.inl hhead), Option.map_map, Option.map_map]
  refine Option.map_congr fun a ha => ?_
  exact (ht.same_child (List.mem_of_mem_head? ha)).id_eq

/-! ## Full names -/

theorem isClassReference_lift {n : Node} (hn : g.plain.Has n) :
    g.commented.isClassReference (g.lift g.commented n) = g.plain.isClassReference n := by
  have ht := twin hg
  have hsame := ht.same_lift hn
  unfold SourceFile.isClassReference
  rw [ht.parent?_lift hn]
  cases hp : g.plain.parent? n with
  | none => rw [Option.map_none]
  | some p =>
    have hhas := ht.linked.has_of_parent? hp
    have hfirst : p.kind ∈ headKinds →
        ((g.lift g.commented p).children.head? == some (g.up n.id)) =
          (p.children.head? == some n.id) := by
      intro hkind
      rw [head?_children_lift hg hc hhas hkind, Bool.eq_iff_iff, beq_iff_eq, beq_iff_eq,
        ← Option.map_some, (Option.map_injective fun a b h => up_inj.1 h).eq_iff]
    rw [Option.map_some]
    dsimp only
    rw [(ht.same_lift hhas).kind_eq, (ht.same_lift hhas).form_eq, hsame.id_eq]
    unfold Node.hasField
    rw [hsame.field_eq]
    cases hkind : p.kind <;> dsimp only <;> exact hfirst (by rw [hkind]; decide)

/-- Every node keeps its full name. -/
theorem resolved_lift {n : Node} (hn : g.plain.Has n) :
    (g.lift g.commented n).resolved = n.resolved := by
  have ht := twin hg
  have hsame := ht.same_lift hn
  have hmeaning := namespaceAt?_meaning hg hc n.span.start
  rw [(complete_commented g).resolved_eq (ht.has_lift hn), (complete_plain g).resolved_eq hn]
  unfold SourceFile.fullName?
  rw [hsame.kind_eq, hsame.start_eq]
  by_cases hclass : n.kind.isClassLike = true
  · have hname : (g.commented.namespaceAt? (g.start n.span.start)).map (·.name) =
        (g.plain.namespaceAt? n.span.start).map (·.name) := by
      have h := congrArg (Option.map Prod.fst) hmeaning
      rw [Option.map_map, Option.map_map] at h
      exact h
    have hkind : n.kind ∈ valueKinds := by
      revert hclass
      cases n.kind <;> decide
    rw [if_pos hclass, if_pos hclass, hname, value_lift hg hc hn hkind]
  · rw [if_neg hclass, if_neg hclass, isClassReference_lift hg hc hn]
    by_cases hname : (n.kind.isName && g.plain.isClassReference n) = true
    · have hkind : n.kind ∈ textKinds := by
        rw [Bool.and_eq_true] at hname
        have := hname.1
        revert this
        cases n.kind <;> decide
      rw [if_pos hname, if_pos hname, text_lift hg hc hn (.inl hkind)]
      dsimp only
      rw [resolve_of_meaning hmeaning]
    · rw [if_neg hname, if_neg hname]

end PhpAudit.Insertion
