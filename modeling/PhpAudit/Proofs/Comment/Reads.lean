import PhpAudit.Proofs.Comment.Source

/-!
# What is read of a commented file

`ReadsAlike` says of each raw read that it gives the same with the comment: texts, first and last children,
the value of an argument, the operator of a concatenation, the type of a cast. A comment is clear exactly if
that is so (`clear_iff_readsAlike`): from a place that is not clear some query reads something else.
-/

namespace PhpAudit.Insertion

variable {g : Insertion}

/-- Every raw read of the file gives the same with the comment. -/
structure ReadsAlike (g : Insertion) : Prop where
  /-- Names, variables and import clauses have their texts. -/
  text : ∀ n, g.plain.Has n → n.kind ∈ textKinds ∨ n.form ∈ textForms →
    g.commented.text? (g.lift g.commented n) = g.plain.text? n
  /-- Declarations have their names. -/
  declared : ∀ n, g.plain.Has n → n.kind ∈ namedKinds →
    g.commented.fieldText? (g.lift g.commented n) "name" = g.plain.fieldText? n "name"
  /-- The properties `request` are the same. -/
  request : ∀ n, g.plain.Has n → n.kind = .propertyAccess →
    ((g.lift g.commented n).value == some "request") = (n.value == some "request")
  /-- Subscripts, accesses to static members, attributes and parentheses start with the same child. -/
  head : ∀ n, g.plain.Has n → n.kind ∈ headKinds ∨ n.form = SourceFile.parenthesized →
    (g.commented.children (g.lift g.commented n)).head? =
      (g.plain.children n).head?.map (g.lift g.commented)
  /-- Loops start and end with the same child. -/
  loop : ∀ n, g.plain.Has n → n.kind = .foreachLoop →
    (g.commented.children (g.lift g.commented n)).head? =
        (g.plain.children n).head?.map (g.lift g.commented) ∧
      (g.commented.children (g.lift g.commented n)).getLast? =
        (g.plain.children n).getLast?.map (g.lift g.commented)
  /-- Arguments have their values. -/
  argument : ∀ n, g.plain.Has n → n.kind = .argument →
    g.commented.argumentValue (g.lift g.commented n) = g.lift g.commented (g.plain.argumentValue n)
  /-- The concatenations and null defaults are the same. -/
  operator : ∀ n, g.plain.Has n → n.form = "binary_expression" →
    joins (g.commented.operator? (g.lift g.commented n)) = joins (g.plain.operator? n)
  /-- The scalar casts are the same. -/
  cast : ∀ n, g.plain.Has n → n.form = "cast_expression" →
    scalarCasts.contains (g.commented.castType (g.lift g.commented n)) =
      scalarCasts.contains (g.plain.castType n)
  /-- The imports of functions and constants are the same. -/
  imports : ∀ n, g.plain.Has n → n.kind = .useDecl →
    g.commented.importsNoClass (g.lift g.commented n) = g.plain.importsNoClass n
  /-- The literals that name the input stream are the same. -/
  input : ∀ n, g.plain.Has n → g.plain.isNamed n "file_get_contents" = true → ∀ a,
    g.plain.argument? n 0 = some a → a.kind = .stringLiteral →
      Text.contains (g.commented.text (g.lift g.commented a)) "php://input" =
        Text.contains (g.plain.text a) "php://input"
  /-- The innermost namespace region around a byte is the same. -/
  regions : ∀ o, Namespace.innermostIdx? (g.commented.regions.map (·.span)) (g.start o) =
    Namespace.innermostIdx? (g.plain.regions.map (·.span)) o

section
variable (hg : g.Valid)
include hg

/-- A clear comment is in no raw read. -/
theorem Clear.readsAlike (hc : g.Clear) : g.ReadsAlike where
  text _ hn hread := text?_lift hg hc hn hread
  declared _ hn hkind := fieldText?_lift hg hc hn hkind
  request _ hn hkind := isRequest_lift hg hc hn hkind
  head _ hn hhead := head?_lift hg hc hn hhead
  loop n hn hkind := by
    obtain ⟨hhead, hlast⟩ := loop_ends hg hc hn hkind
    have hpadded := (twin hg).children hn
    exact ⟨hpadded.head?_map hhead, hpadded.getLast?_map hlast⟩
  argument _ hn hkind := argumentValue_lift hg hc hn hkind
  operator _ hn hform := joins_lift hg hc hn hform
  cast _ hn hform := isScalarCast_lift hg hc hn hform
  imports _ hn hkind := importsNoClass_lift hg hc hn hkind
  input := hc.input
  regions := hc.regions

/-! ## The comment in a read -/

/-- A text with the comment in it is another text. -/
theorem text?_ne_of_straddles {n : Node} (hn : g.plain.Has n) (hs : g.Straddles n.span) :
    g.commented.text? (g.lift g.commented n) ≠ g.plain.text? n := by
  obtain ⟨x, y, -, hplain, hcommented⟩ := (twin hg).text?_of_straddles hn hs
  obtain ⟨c, rest, -, hcomment⟩ := hg.exists_mark
  rw [hplain, hcommented]
  intro h
  have hlength := congrArg (fun s => s.toList.length) (Option.some.inj h)
  simp only [String.toList_append, List.length_append, hcomment, List.length_cons] at hlength
  omega

/-- The comment hangs from a node that was there without it. -/
theorem exists_lift_of_parent? {p : Node} (hp : g.parent? = some p) :
    ∃ n, g.plain.Has n ∧ g.lift g.commented n = p := by
  have ht := twin hg
  obtain ⟨c, hc, hparent⟩ := Option.bind_eq_some_iff.1 hp
  have hhas := ht.linked'.has_of_parent? hparent
  -- it does not hang from itself, since it has no children
  have hne : p.id ≠ g.site := by
    intro hid
    have hchild := ((ht.linked'.parent?_eq_some_iff (ht.linked'.has hc)).1 hparent).2
    unfold SourceFile.children at hchild
    rw [(ht.isComment hhas hid).children_eq] at hchild
    cases hchild
  obtain ⟨i, hi⟩ := exists_up hne
  have hnode : g.commented.node? (g.up i) = some p := by rw [hi]; exact hhas
  rw [ht.node?_up] at hnode
  obtain ⟨n, hn, hlift⟩ := Option.map_eq_some_iff.1 hnode
  exact ⟨n, ht.linked.has hn, hlift⟩

theorem lift_id_ne {n : Node} (hn : g.plain.Has n) : (g.lift g.commented n).id ≠ g.site := by
  rw [((twin hg).same_lift hn).id_eq]
  exact up_ne_site n.id

theorem head?_ne_site {n : Node} (hn : g.plain.Has n)
    (h : (g.commented.children (g.lift g.commented n)).head? =
      (g.plain.children n).head?.map (g.lift g.commented)) :
    (g.lift g.commented n).children.head? ≠ some g.site := by
  have ht := twin hg
  rw [← ht.linked'.map_id_children (ht.has_lift hn), List.head?_map, h, Option.map_map]
  intro hsite
  obtain ⟨m, hm, hid⟩ := Option.map_eq_some_iff.1 hsite
  exact lift_id_ne hg (ht.linked.has_of_mem_children (List.mem_of_mem_head? hm)) hid

theorem getLast?_ne_site {n : Node} (hn : g.plain.Has n)
    (h : (g.commented.children (g.lift g.commented n)).getLast? =
      (g.plain.children n).getLast?.map (g.lift g.commented)) :
    (g.lift g.commented n).children.getLast? ≠ some g.site := by
  have ht := twin hg
  rw [← ht.linked'.map_id_children (ht.has_lift hn), List.getLast?_map, h, Option.map_map]
  intro hsite
  obtain ⟨m, hm, hid⟩ := Option.map_eq_some_iff.1 hsite
  exact lift_id_ne hg (ht.linked.has_of_mem_children (List.mem_of_getLast? hm)) hid

theorem argumentValue_has {n : Node} (hn : g.plain.Has n) : g.plain.Has (g.plain.argumentValue n) := by
  unfold SourceFile.argumentValue
  cases hv : (g.plain.children n).find? (fun c => !c.hasField "name") with
  | none => exact hn
  | some v => exact (twin hg).linked.has_of_mem_children (List.mem_of_find?_eq_some hv)

theorem fieldText?_of_child? {n m : Node} (hn : g.plain.Has n)
    (hm : g.plain.child? n "name" = some m) :
    g.plain.fieldText? n "name" = g.plain.text? m ∧
      g.commented.fieldText? (g.lift g.commented n) "name" =
        g.commented.text? (g.lift g.commented m) := by
  unfold SourceFile.fieldText?
  rw [(twin hg).child?_lift hn, hm, Option.map_some]
  exact ⟨rfl, rfl⟩

/-- A comment in a place that is not clear is in the read of that place. -/
theorem ReadsAlike.clear (hr : g.ReadsAlike) : g.Clear where
  names n hn hs := by
    have hne := text?_ne_of_straddles hg hn hs
    exact ⟨fun h => hne (hr.text n hn (.inl h)), fun h => hne (hr.text n hn (.inr h))⟩
  declared n hn h m hm hs := by
    rcases h with hkind | ⟨hkind, hvalue⟩
    · have hhas := (twin hg).linked.has_of_mem_children (SourceFile.mem_children_of_child? hm)
      have heq := hr.declared n hn hkind
      obtain ⟨hplain, hcommented⟩ := fieldText?_of_child? hg hn hm
      rw [hplain, hcommented] at heq
      exact text?_ne_of_straddles hg hhas hs heq
    · have heq := hr.request n hn hkind
      rw [hvalue, beq_self_eq_true, beq_iff_eq] at heq
      exact ne_request_of_straddles hg hn hkind hm hs heq
  head p hp h := by
    obtain ⟨n, hn, rfl⟩ := exists_lift_of_parent? hg hp
    have hsame := (twin hg).same_lift hn
    rw [hsame.kind_eq, hsame.form_eq] at h
    exact head?_ne_site hg hn (hr.head n hn h)
  loop p hp hkind := by
    obtain ⟨n, hn, rfl⟩ := exists_lift_of_parent? hg hp
    rw [((twin hg).same_lift hn).kind_eq] at hkind
    obtain ⟨hhead, hlast⟩ := hr.loop n hn hkind
    exact ⟨head?_ne_site hg hn hhead, getLast?_ne_site hg hn hlast⟩
  argument p hp hkind v hv := by
    obtain ⟨n, hn, rfl⟩ := exists_lift_of_parent? hg hp
    rw [((twin hg).same_lift hn).kind_eq] at hkind
    have heq := hr.argument n hn hkind
    unfold SourceFile.argumentValue at heq
    rw [hv, Option.getD_some] at heq
    rw [heq]
    exact lift_id_ne hg (argumentValue_has hg hn)
  operator n hn hform h l hl r hright hgap := by
    have heq := hr.operator n hn hform
    rw [joins_of_gap hg hn hl hright hgap] at heq
    rcases h with h | h <;> rw [h] at heq <;> cases heq
  cast n hn hform hscalar hs := by
    have heq := hr.cast n hn hform
    obtain ⟨x, y, hx, -, hcommented⟩ := (twin hg).text_of_straddles hn hs
    refine ⟨x, hx, ?_⟩
    rw [List.contains_iff_mem.2 hscalar, List.contains_iff_mem, castType_eq, hcommented] at heq
    by_contra hopen
    exact castOf_comment hg hopen y heq
  imports n hn hkind hno hs := by
    have heq := hr.imports n hn hkind
    obtain ⟨x, y, hx, -, hcommented⟩ := (twin hg).text_of_straddles hn hs
    refine ⟨x, hx, ?_⟩
    rw [hno, importsNoClass_eq, hcommented, saysNoClass_comment hg] at heq
    exact heq
  input := hr.input
  regions := hr.regions

/-- A comment is clear exactly if every raw read gives the same with it. -/
theorem clear_iff_readsAlike : g.Clear ↔ g.ReadsAlike :=
  ⟨fun hc => hc.readsAlike hg, fun hr => hr.clear hg⟩

end

end PhpAudit.Insertion
