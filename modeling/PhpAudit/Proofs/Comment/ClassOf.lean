import PhpAudit.Proofs.Comment.Binding
import PhpAudit.Query.Request

/-!
# Calls and classes in a commented file

Callees, arguments, the heads of chains and the sources of types are the same nodes with the comment. So is
the class of every expression, in the hierarchy of the same project (`classOf?_lift`), and with it every
read of the request (`readsRequest_lift`).
-/

namespace PhpAudit.Insertion

variable {g : Insertion} (hg : g.Valid) (hc : g.Clear)
include hg hc

/-! ## Calls -/

theorem callName?_lift {n : Node} (hn : g.plain.Has n) :
    g.commented.callName? (g.lift g.commented n) = g.plain.callName? n := by
  have ht := twin hg
  unfold SourceFile.callName?
  rw [(ht.same_lift hn).kind_eq]
  refine Option.bind_congr fun field _ => ?_
  rw [ht.child?_lift hn, Option.bind_map]
  refine Option.bind_congr fun callee hcallee => ?_
  have hhas := ht.linked.has_of_mem_children (SourceFile.mem_children_of_child? hcallee)
  rw [Function.comp_apply, (ht.same_lift hhas).kind_eq]
  by_cases hname : callee.kind.isName = true
  · have hkind : callee.kind ∈ textKinds := by
      revert hname
      cases callee.kind <;> decide
    rw [if_pos hname, if_pos hname, text_lift hg hc hhas (.inl hkind)]
  · rw [if_neg hname, if_neg hname]

theorem isNamedAny_lift (names : List String) {n : Node} (hn : g.plain.Has n) :
    g.commented.isNamedAny (g.lift g.commented n) names = g.plain.isNamedAny n names := by
  unfold SourceFile.isNamedAny
  rw [callName?_lift hg hc hn]

theorem isNamed_lift (name : String) {n : Node} (hn : g.plain.Has n) :
    g.commented.isNamed (g.lift g.commented n) name = g.plain.isNamed n name :=
  isNamedAny_lift hg hc [name] hn

theorem argumentValue_lift {n : Node} (hn : g.plain.Has n) (hkind : n.kind = .argument) :
    g.commented.argumentValue (g.lift g.commented n) =
      g.lift g.commented (g.plain.argumentValue n) := by
  have ht := twin hg
  have hfind : (g.commented.children (g.lift g.commented n)).find? (fun c => !c.hasField "name") =
      ((g.plain.children n).find? (fun c => !c.hasField "name")).map (g.lift g.commented) := by
    refine (ht.children hn).find?_of_ne (fun m hm => ?_) fun v hv hid => ?_
    · unfold Node.hasField
      rw [(ht.same_child hm).field_eq]
    · have hparent := parent?_eq hg (ht.has_lift hn) (List.mem_of_find?_eq_some hv) hid
      exact hc.argument _ hparent ((ht.same_lift hn).kind_eq.trans hkind) v hv hid
  unfold SourceFile.argumentValue
  rw [hfind, Option.getD_map]

omit hc in
theorem argumentList?_lift {n : Node} (hn : g.plain.Has n) :
    g.commented.argumentList? (g.lift g.commented n) =
      (g.plain.argumentList? n).map (g.lift g.commented) := by
  have ht := twin hg
  unfold SourceFile.argumentList?
  rw [(ht.same_lift hn).kind_eq, ht.child?_lift hn, ht.firstOf?_lift hn (by decide)]
  split
  · simp only [Option.orElse_eq_orElse, Option.orElse_eq_or, Option.map_or]
  · rw [Option.map_none]

theorem arguments_lift {n : Node} (hn : g.plain.Has n) :
    g.commented.arguments (g.lift g.commented n) =
      (g.plain.arguments n).map (g.lift g.commented) := by
  have ht := twin hg
  unfold SourceFile.arguments
  rw [argumentList?_lift hg hn]
  cases hlist : g.plain.argumentList? n with
  | none => rw [Option.map_none, List.map_nil]
  | some list =>
    have hhas := ht.linked.stable_has.argumentList? hn hlist
    rw [Option.map_some]
    dsimp only
    rw [ht.filter_children hhas (q := fun c => decide (c.kind = .argument))
      (fun c h => by rw [h.kind_eq]; decide) fun m hm => by rw [(ht.same_child hm).kind_eq],
      List.map_map, List.map_map]
    refine List.map_congr_left fun m hm => ?_
    obtain ⟨hm, hkind⟩ := List.mem_filter.1 hm
    exact argumentValue_lift hg hc (ht.linked.has_of_mem_children hm) (by simpa using hkind)

theorem argument?_lift (position : Nat) {n : Node} (hn : g.plain.Has n) :
    g.commented.argument? (g.lift g.commented n) position =
      (g.plain.argument? n position).map (g.lift g.commented) := by
  unfold SourceFile.argument?
  rw [arguments_lift hg hc hn, List.getElem?_map]

/-! ## Chains -/

omit hc in
theorem receiver?_lift {n : Node} (hn : g.plain.Has n) :
    g.commented.receiver? (g.lift g.commented n) =
      (g.plain.receiver? n).map (g.lift g.commented) := by
  have ht := twin hg
  unfold SourceFile.receiver?
  rw [(ht.same_lift hn).kind_eq]
  cases n.kind with
  | methodCall => exact ht.child?_lift hn _
  | staticCall => exact ht.child?_lift hn _
  | _ => rw [Option.map_none]

omit hc in
/-- A walk that takes the same steps with the comment ends at the same node. -/
theorem destination?_lift {step step' : Node → Option Node} (hd : g.plain.Descends step)
    (hstep : ∀ {n}, g.plain.Has n → step' (g.lift g.commented n) =
      (step n).map (g.lift g.commented))
    {unfinished : Node → Bool}
    (hend : ∀ {n}, g.plain.Has n → unfinished (g.lift g.commented n) = unfinished n)
    {n : Node} (hn : g.plain.Has n) :
    g.commented.destination? step' unfinished (g.lift g.commented n) =
      (g.plain.destination? step unfinished n).map (g.lift g.commented) := by
  have ht := twin hg
  unfold SourceFile.destination?
  rw [ht.trail_lift hd hstep hn, List.getLast?_map]
  cases hlast : (g.plain.trail step n).getLast? with
  | none => simp only [Option.map_none, Option.filter_none]
  | some last =>
    have hhas := ht.linked.stable_has.trail hd hn last (List.mem_of_getLast? hlast)
    rw [Option.map_some, Option.filter_some, Option.filter_some, hend hhas]
    split
    · rw [Option.map_some]
    · rw [Option.map_none]

omit hc in
theorem isLink_lift {n : Node} (hn : g.plain.Has n) :
    SourceFile.isLink (g.lift g.commented n) = SourceFile.isLink n := by
  have hsame := (twin hg).same_lift hn
  unfold SourceFile.isLink
  rw [hsame.kind_eq, hsame.form_eq]

theorem linkTarget?_lift {n : Node} (hn : g.plain.Has n) :
    g.commented.linkTarget? (g.lift g.commented n) =
      (g.plain.linkTarget? n).map (g.lift g.commented) := by
  have ht := twin hg
  have hparens : (if n.form == SourceFile.parenthesized then
        (g.commented.children (g.lift g.commented n)).head? else none) =
      (if n.form == SourceFile.parenthesized then (g.plain.children n).head? else none).map
        (g.lift g.commented) := by
    split
    · next h => exact head?_lift hg hc hn (.inr (by simpa using h))
    · rw [Option.map_none]
  unfold SourceFile.linkTarget?
  rw [(ht.same_lift hn).kind_eq, (ht.same_lift hn).form_eq]
  cases hkind : n.kind with
  | methodCall => exact ht.child?_lift hn _
  | propertyAccess => exact ht.child?_lift hn _
  | staticCall => exact ht.child?_lift hn _
  | staticPropertyAccess => exact head?_lift hg hc hn (.inl (by rw [hkind]; decide))
  | _ => exact hparens

theorem chainHead?_lift {n : Node} (hn : g.plain.Has n) :
    g.commented.chainHead? (g.lift g.commented n) =
      (g.plain.chainHead? n).map (g.lift g.commented) := by
  unfold SourceFile.chainHead?
  rw [receiver?_lift hg hn, Option.bind_map, Option.map_bind]
  refine Option.bind_congr fun receiver hr => ?_
  exact destination?_lift hg SourceFile.descends_linkTarget? (linkTarget?_lift hg hc)
    (isLink_lift hg) ((twin hg).linked.stable_has.receiver? hn hr)

/-! ## Classes -/

omit hc in
theorem isWrapper_lift {n : Node} (hn : g.plain.Has n) :
    SourceFile.isWrapper (g.lift g.commented n) = SourceFile.isWrapper n := by
  have hsame := (twin hg).same_lift hn
  unfold SourceFile.isWrapper
  rw [hsame.kind_eq, hsame.form_eq]

theorem wrapped?_lift {n : Node} (hn : g.plain.Has n) :
    g.commented.wrapped? (g.lift g.commented n) =
      (g.plain.wrapped? n).map (g.lift g.commented) := by
  have ht := twin hg
  unfold SourceFile.wrapped?
  rw [(ht.same_lift hn).kind_eq, (ht.same_lift hn).form_eq]
  cases n.kind with
  | creation =>
    refine ht.find?_children hn (fun c h => ?_) fun m hm => ?_
    · rw [h.kind_eq]
      decide
    · rw [(ht.same_child hm).kind_eq]
  | staticCall => exact ht.child?_lift hn _
  | assignment => exact ht.child?_lift hn _
  | other =>
    dsimp only
    split
    · next h => exact head?_lift hg hc hn (.inr (by simpa using h))
    · rw [Option.map_none]
  | _ => rw [Option.map_none]

theorem typeSource?_lift {n : Node} (hn : g.plain.Has n) :
    g.commented.typeSource? (g.lift g.commented n) =
      (g.plain.typeSource? n).map (g.lift g.commented) :=
  destination?_lift hg SourceFile.descends_wrapped? (wrapped?_lift hg hc) (isWrapper_lift hg) hn

theorem declaredType?_lift {n : Node} (hn : g.plain.Has n) :
    g.commented.declaredType? (g.lift g.commented n) = g.plain.declaredType? n := by
  have ht := twin hg
  unfold SourceFile.declaredType?
  rw [ht.child?_lift hn, Option.bind_map]
  refine Option.bind_congr fun type htype => ?_
  have hhas := ht.linked.has_of_mem_children (SourceFile.mem_children_of_child? htype)
  rw [Function.comp_apply, ← List.head?_filterMap, ← List.head?_filterMap]
  refine congrArg List.head? ((ht.descendants hhas).filterMap_eq (fun c hc hid => ?_) fun m hm => ?_)
  · exact (ht.isComment hc hid).resolved_eq
  · exact resolved_lift hg hc (ht.has_descendants hhas m hm)

theorem name?_lift {n : Node} (hn : g.plain.Has n) (hkind : n.kind.isClassLike = true) :
    (g.lift g.commented n).name? = n.name? := by
  have hvalue : n.kind ∈ valueKinds := by
    revert hkind
    cases n.kind <;> decide
  unfold Node.name?
  rw [resolved_lift hg hc hn, value_lift hg hc hn hvalue]

theorem clauseName_lift {n : Node} (hn : g.plain.Has n) (hkind : n.kind.isName = true) :
    g.commented.text (g.lift g.commented n) = g.plain.text n := by
  refine text_lift hg hc hn (.inl ?_)
  revert hkind
  cases n.kind <;> decide

variable (h : Hierarchy)

theorem enclosingClassName?_lift {n : Node} (hn : g.plain.Has n) :
    (Context.mk g.commented h).enclosingClassName? (g.lift g.commented n) =
      (Context.mk g.plain h).enclosingClassName? n := by
  have ht := twin hg
  unfold Context.enclosingClassName?
  dsimp only
  rw [ht.enclosingClass?_lift hn, Option.bind_map]
  refine Option.bind_congr fun decl hdecl => ?_
  have hhas := ht.has_ancestors hn decl (List.mem_of_find?_eq_some hdecl)
  exact name?_lift hg hc hhas (List.find?_some (p := fun a : Node => a.kind.isClassLike) hdecl)

theorem writtenParent?_lift {n : Node} (hn : g.plain.Has n) :
    (Context.mk g.commented h).writtenParent? (g.lift g.commented n) =
      (Context.mk g.plain h).writtenParent? n := by
  have ht := twin hg
  unfold Context.writtenParent?
  dsimp only
  rw [ht.firstOf?_lift hn (by decide), Option.bind_map]
  refine Option.bind_congr fun base hbase => ?_
  have hhas := ht.linked.has_of_mem_children (SourceFile.mem_children_of_firstOf? hbase)
  rw [Function.comp_apply, ht.find?_children hhas (q := fun c => c.kind.isName)
    (fun c h => by rw [h.kind_eq]; decide) fun m hm => by rw [(ht.same_child hm).kind_eq],
    Option.map_map]
  refine Option.map_congr fun m hm => ?_
  have hhas := ht.linked.has_of_mem_children (List.mem_of_find?_eq_some hm)
  rw [Function.comp_apply, resolved_lift hg hc hhas,
    clauseName_lift hg hc hhas (List.find?_some (p := fun c : Node => c.kind.isName) hm)]

theorem parentClass?_lift {n : Node} (hn : g.plain.Has n) :
    (Context.mk g.commented h).parentClass? (g.lift g.commented n) =
      (Context.mk g.plain h).parentClass? n := by
  have ht := twin hg
  unfold Context.parentClass?
  dsimp only
  rw [ht.enclosingClass?_lift hn, Option.bind_map]
  refine Option.bind_congr fun decl hdecl => ?_
  have hhas := ht.has_ancestors hn decl (List.mem_of_find?_eq_some hdecl)
  have hkind := List.find?_some (p := fun a : Node => a.kind.isClassLike) hdecl
  rw [Function.comp_apply, name?_lift hg hc hhas hkind, writtenParent?_lift hg hc h hhas]

theorem resolve?_lift (written : String) {n : Node} (hn : g.plain.Has n) :
    (Context.mk g.commented h).resolve? (g.lift g.commented n) written =
      (Context.mk g.plain h).resolve? n written := by
  have hmeaning := namespaceAt?_meaning hg hc n.span.start
  unfold Context.resolve?
  dsimp only
  rw [enclosingClassName?_lift hg hc h hn, parentClass?_lift hg hc h hn,
    ((twin hg).same_lift hn).start_eq, resolve_of_meaning hmeaning]

theorem evidentClass?_lift {n : Node} (hn : g.plain.Has n) :
    (Context.mk g.commented h).evidentClass? (g.lift g.commented n) =
      (Context.mk g.plain h).evidentClass? n := by
  unfold Context.evidentClass?
  dsimp only
  rw [((twin hg).same_lift hn).kind_eq]
  cases hkind : n.kind with
  | name =>
    dsimp only
    rw [resolved_lift hg hc hn, text_lift hg hc hn (.inl (by rw [hkind]; decide)),
      resolve?_lift hg hc h _ hn]
  | qualifiedName =>
    dsimp only
    rw [resolved_lift hg hc hn, text_lift hg hc hn (.inl (by rw [hkind]; decide)),
      resolve?_lift hg hc h _ hn]
  | relativeScope =>
    dsimp only
    rw [text_lift hg hc hn (.inl (by rw [hkind]; decide)), resolve?_lift hg hc h _ hn]
  | parameter => exact declaredType?_lift hg hc hn
  | var =>
    dsimp only
    rw [value_lift hg hc hn (by rw [hkind]; decide), enclosingClassName?_lift hg hc h hn]
  | _ => dsimp only

omit h in
theorem isFreeVariable_lift {n : Node} (hn : g.plain.Has n) :
    Context.isFreeVariable (g.lift g.commented n) = Context.isFreeVariable n := by
  unfold Context.isFreeVariable
  rw [((twin hg).same_lift hn).kind_eq]
  by_cases hkind : n.kind = .var
  · rw [value_lift hg hc hn (by rw [hkind]; decide)]
  · simp [hkind]

theorem classWithin_lift (hops : Nat) {n : Node} (hn : g.plain.Has n) :
    (Context.mk g.commented h).classWithin hops (g.lift g.commented n) =
      (Context.mk g.plain h).classWithin hops n := by
  have hs := (twin hg).linked.stable_has
  induction hops generalizing n with
  | zero =>
    unfold Context.classWithin
    dsimp only
    rw [typeSource?_lift hg hc hn, Option.bind_map]
    refine Option.bind_congr fun source hsource => ?_
    have hhas := hs.typeSource? hn hsource
    rw [Function.comp_apply, isFreeVariable_lift hg hc hhas, evidentClass?_lift hg hc h hhas]
  | succ hops ih =>
    unfold Context.classWithin
    dsimp only
    rw [typeSource?_lift hg hc hn, Option.bind_map]
    refine Option.bind_congr fun source hsource => ?_
    have hhas := hs.typeSource? hn hsource
    rw [Function.comp_apply, isFreeVariable_lift hg hc hhas, evidentClass?_lift hg hc h hhas]
    by_cases hfree : Context.isFreeVariable source = true
    · have hkind : source.kind = .var := by
        unfold Context.isFreeVariable at hfree
        simp only [Bool.and_eq_true, decide_eq_true_iff] at hfree
        exact hfree.1.1
      rw [if_pos hfree, if_pos hfree, value_lift hg hc hhas (by rw [hkind]; decide),
        bindings_lift hg hc _ hhas, ← List.head?_filterMap, ← List.head?_filterMap,
        List.filterMap_map]
      refine congrArg List.head? (List.filterMap_congr fun b hb => ?_)
      have hsource' : Context.bindingSource? (Binding.map (g.lift g.commented) b) =
          (Context.bindingSource? b).map (g.lift g.commented) := by
        cases b <;> rfl
      rw [Function.comp_apply, hsource', Option.bind_map]
      exact Option.bind_congr fun m hm => ih (hs.bindingSource? hhas hb hm)
    · rw [if_neg hfree, if_neg hfree]

theorem classOf?_lift {n : Node} (hn : g.plain.Has n) :
    (Context.mk g.commented h).classOf? (g.lift g.commented n) =
      (Context.mk g.plain h).classOf? n :=
  classWithin_lift hg hc h maxTypeHops hn

theorem staticClass?_lift {n : Node} (hn : g.plain.Has n) :
    (Context.mk g.commented h).staticClass? (g.lift g.commented n) =
      (Context.mk g.plain h).staticClass? n := by
  have ht := twin hg
  unfold Context.staticClass?
  dsimp only
  rw [(ht.same_lift hn).kind_eq, receiver?_lift hg hn, Option.bind_map]
  split
  · exact Option.bind_congr fun m hm =>
      classOf?_lift hg hc h (ht.linked.stable_has.receiver? hn hm)
  · rfl

end PhpAudit.Insertion
