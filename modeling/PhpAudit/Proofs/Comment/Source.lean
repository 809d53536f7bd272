import PhpAudit.Proofs.Comment.ClassOf
import PhpAudit.Query.Taint

/-!
# Sources and parts in a commented file

A node reads outside data with the comment exactly if it does without (`isSource_lift`), and a comment reads
none. The parts of a value are the same up to the comment itself (`parts_padded`): only the branches of a
choice keep it. What the raw text decides, the operator of a binary expression and the type of a cast, is
the same because the comment is clear of it.
-/

namespace PhpAudit.Insertion

variable {g : Insertion} (hg : g.Valid) (hc : g.Clear)
include hg hc

/-! ## Reads of the request -/

theorem isThisRequest_lift {n : Node} (hn : g.plain.Has n) :
    g.commented.isThisRequest (g.lift g.commented n) = g.plain.isThisRequest n := by
  have ht := twin hg
  unfold SourceFile.isThisRequest
  rw [(ht.same_lift hn).kind_eq, ht.child?_lift hn]
  by_cases hkind : n.kind = .propertyAccess
  · rw [isRequest_lift hg hc hn hkind]
    cases hobject : g.plain.child? n "object" with
    | none => rw [Option.map_none]
    | some object =>
      have hhas := ht.linked.has_of_mem_children (SourceFile.mem_children_of_child? hobject)
      rw [Option.map_some]
      dsimp only
      rw [isVar_lift hg hc "this" hhas]
  · simp [hkind]

omit hc in
theorem memberTarget?_lift {n : Node} (hn : g.plain.Has n) :
    g.commented.memberTarget? (g.lift g.commented n) =
      (g.plain.memberTarget? n).map (g.lift g.commented) := by
  have ht := twin hg
  unfold SourceFile.memberTarget?
  rw [(ht.same_lift hn).kind_eq]
  cases n.kind with
  | methodCall => exact ht.child?_lift hn _
  | propertyAccess => exact ht.child?_lift hn _
  | _ => rw [Option.map_none]

theorem passesThisRequest_lift {n : Node} (hn : g.plain.Has n) :
    g.commented.passesThisRequest (g.lift g.commented n) = g.plain.passesThisRequest n := by
  have ht := twin hg
  unfold SourceFile.passesThisRequest
  rw [ht.child?_lift hn]
  cases hobject : g.plain.child? n "object" with
  | none => rw [Option.map_none]
  | some object =>
    have hhas := ht.linked.has_of_mem_children (SourceFile.mem_children_of_child? hobject)
    have hin := ht.linked.stable_has.trail SourceFile.descends_memberTarget? hhas
    rw [Option.map_some]
    dsimp only
    rw [ht.trail_lift SourceFile.descends_memberTarget? (memberTarget?_lift hg) hhas]
    refine (ht.map_lift_has hin).any_eq (fun c hhas hid => ?_) fun m hm => ?_
    · unfold SourceFile.isThisRequest
      rw [(ht.isComment hhas hid).kind_eq]
      rfl
    · exact isThisRequest_lift hg hc (hin m hm)

section Request
variable (h : Hierarchy)

omit hg hc in
theorem isRequestClass_eq (f f' : SourceFile) :
    (Context.mk f h).isRequestClass = (Context.mk f' h).isRequestClass := rfl

theorem isRequestValue_lift {n : Node} (hn : g.plain.Has n) :
    (Context.mk g.commented h).isRequestValue (g.lift g.commented n) =
      (Context.mk g.plain h).isRequestValue n := by
  unfold Context.isRequestValue
  dsimp only
  rw [((twin hg).same_lift hn).kind_eq, isNamed_lift hg hc _ hn, classOf?_lift hg hc h hn,
    isRequestClass_eq h g.commented g.plain]

theorem readsRequest_lift {n : Node} (hn : g.plain.Has n) :
    (Context.mk g.commented h).readsRequest (g.lift g.commented n) =
      (Context.mk g.plain h).readsRequest n := by
  have ht := twin hg
  have hhead : (g.commented.chainHead? (g.lift g.commented n)).any
        (Context.mk g.commented h).isRequestValue =
      (g.plain.chainHead? n).any (Context.mk g.plain h).isRequestValue := by
    rw [chainHead?_lift hg hc hn, Option.any_map]
    cases hhead : g.plain.chainHead? n with
    | none => rw [Option.any_none, Option.any_none]
    | some head =>
      exact isRequestValue_lift hg hc h (ht.linked.stable_has.chainHead? hn hhead)
  have hobject : (g.commented.child? (g.lift g.commented n) "object").any
        (fun o => decide (o.kind = .var) && (Context.mk g.commented h).isRequestValue o) =
      (g.plain.child? n "object").any
        (fun o => decide (o.kind = .var) && (Context.mk g.plain h).isRequestValue o) := by
    rw [ht.child?_lift hn, Option.any_map]
    cases hobject : g.plain.child? n "object" with
    | none => rw [Option.any_none, Option.any_none]
    | some object =>
      have hhas := ht.linked.has_of_mem_children (SourceFile.mem_children_of_child? hobject)
      rw [Option.any_some, Option.any_some, (ht.same_lift hhas).kind_eq,
        isRequestValue_lift hg hc h hhas]
  unfold Context.readsRequest
  dsimp only
  rw [(ht.same_lift hn).kind_eq, isNamed_lift hg hc _ hn, staticClass?_lift hg hc h hn,
    passesThisRequest_lift hg hc hn, isThisRequest_lift hg hc hn, hhead, hobject,
    isRequestClass_eq h g.commented g.plain]

end Request

/-! ## Reads of input -/

theorem subscriptBase?_lift {n : Node} (hn : g.plain.Has n) :
    g.commented.subscriptBase? (g.lift g.commented n) =
      (g.plain.subscriptBase? n).map (g.lift g.commented) := by
  unfold SourceFile.subscriptBase?
  rw [((twin hg).same_lift hn).kind_eq]
  split
  · next hkind => exact head?_lift hg hc hn (.inl (by rw [hkind]; decide))
  · rw [Option.map_none]

theorem callsInput_lift {n : Node} (hn : g.plain.Has n) :
    g.commented.callsInput (g.lift g.commented n) = g.plain.callsInput n := by
  have ht := twin hg
  unfold SourceFile.callsInput
  rw [isNamedAny_lift hg hc _ hn, isNamed_lift hg hc _ hn, argument?_lift hg hc _ hn, Option.any_map]
  by_cases hnamed : g.plain.isNamed n "file_get_contents" = true
  · rw [hnamed]
    cases harg : g.plain.argument? n 0 with
    | none => rw [Option.any_none, Option.any_none]
    | some a =>
      have hhas := ht.linked.stable_has.arguments hn a (List.mem_of_getElem? harg)
      rw [Option.any_some, Option.any_some, (ht.same_lift hhas).kind_eq]
      by_cases hkind : a.kind = .stringLiteral
      · rw [hc.input n hn hnamed a harg hkind]
      · simp [hkind]
  · rw [Bool.not_eq_true] at hnamed
    rw [hnamed, Bool.false_and, Bool.false_and]

theorem readsInput_lift {n : Node} (hn : g.plain.Has n) :
    g.commented.readsInput (g.lift g.commented n) = g.plain.readsInput n := by
  have ht := twin hg
  unfold SourceFile.readsInput
  rw [ht.trail_lift SourceFile.descends_subscriptBase? (subscriptBase?_lift hg hc) hn,
    List.getLast?_map, Option.any_map]
  cases hlast : (g.plain.trail g.plain.subscriptBase? n).getLast? with
  | none => rw [Option.any_none, Option.any_none]
  | some base =>
    have hhas := ht.linked.stable_has.trail SourceFile.descends_subscriptBase? hn base
      (List.mem_of_getLast? hlast)
    rw [Option.any_some, Option.any_some, (ht.same_lift hhas).kind_eq,
      callsInput_lift hg hc hhas]
    by_cases hkind : base.kind = .var
    · rw [value_lift hg hc hhas (by rw [hkind]; decide)]
    · cases hk : base.kind <;> first | rfl | exact absurd hk hkind

theorem isSource_lift (h : Hierarchy) {n : Node} (hn : g.plain.Has n) :
    (Context.mk g.commented h).isSource (g.lift g.commented n) =
      (Context.mk g.plain h).isSource n := by
  unfold Context.isSource
  dsimp only
  rw [readsInput_lift hg hc hn, readsRequest_lift hg hc h hn]

omit hc in
theorem isSource_comment (h : Hierarchy) {c : Node} (hhas : g.commented.Has c) (hid : c.id = g.site) :
    (Context.mk g.commented h).isSource c = false := by
  have hkind := ((twin hg).isComment hhas hid).kind_eq
  have hbase : g.commented.subscriptBase? c = none := by
    unfold SourceFile.subscriptBase?
    rw [if_neg (by rw [hkind]; decide)]
  have htrail : g.commented.trail g.commented.subscriptBase? c = [c] := by
    unfold SourceFile.trail
    cases g.commented.size with
    | zero => rfl
    | succ fuel =>
      unfold SourceFile.trailFrom
      rw [hbase]
  have hinput : g.commented.readsInput c = false := by
    unfold SourceFile.readsInput
    rw [htrail, List.getLast?_singleton, Option.any_some, hkind]
  have hrequest : (Context.mk g.commented h).readsRequest c = false := by
    unfold Context.readsRequest
    rw [hkind]
  unfold Context.isSource
  dsimp only
  rw [hinput, hrequest]
  rfl

/-! ## Casts and operators -/

theorem isScalarCast_lift {n : Node} (hn : g.plain.Has n) (hform : n.form = "cast_expression") :
    scalarCasts.contains (g.commented.castType (g.lift g.commented n)) =
      scalarCasts.contains (g.plain.castType n) := by
  have ht := twin hg
  rw [castType_eq, castType_eq]
  by_cases hs : g.Straddles n.span
  · obtain ⟨x, y, hx, hplain, hcommented⟩ := ht.text_of_straddles hn hs
    rw [hplain, hcommented]
    by_cases hclosed : ')' ∈ (Text.stripStart '(' x).toList
    · rw [castOf_append hclosed, castOf_append hclosed]
    · have hno := castOf_comment hg hclosed y
      have hno' : castOf (x ++ y) ∉ scalarCasts := by
        intro hin
        rw [← hplain, ← castType_eq] at hin
        obtain ⟨x', hx', hclosed'⟩ := hc.cast n hn hform hin hs
        rw [hx] at hx'
        exact hclosed (Option.some.inj hx' ▸ hclosed')
      rw [Bool.eq_iff_iff, List.contains_iff_mem, List.contains_iff_mem]
      exact ⟨fun h => absurd h hno, fun h => absurd h hno'⟩
  · rw [ht.text_lift hn hs]

omit hg hc in
/-- Whether an operator keeps what its operands have. -/
def joins (operator : Option String) : Bool := operator == some "." || operator == some "??"

omit hg hc in
theorem joins_of_marked {s : String} (hs : marked s = true) : joins (some s) = false := by
  have hdot : s ≠ "." := fun h => by rw [h] at hs; exact absurd hs (by decide)
  have hnull : s ≠ "??" := fun h => by rw [h] at hs; exact absurd hs (by decide)
  simp [joins, hdot, hnull]

omit hc in
theorem operator?_lift {n l r : Node} (hn : g.plain.Has n) (hl : g.plain.child? n "left" = some l)
    (hr : g.plain.child? n "right" = some r) :
    g.commented.operator? (g.lift g.commented n) =
      (Text.slice? g.commentedSource (g.stop l.span.stop) (g.start r.span.start)).map Text.trim := by
  have ht := twin hg
  unfold SourceFile.operator?
  rw [ht.child?_lift hn, ht.child?_lift hn, hl, hr, ht.source_eq', Option.map_some, Option.map_some,
    Option.bind_some, Option.bind_some,
    (ht.same_child (SourceFile.mem_children_of_child? hl)).stop_eq,
    (ht.same_child (SourceFile.mem_children_of_child? hr)).start_eq]

omit hc in
/-- With the comment between the operands no operator is found that keeps what they have. -/
theorem joins_of_gap {n l r : Node} (hn : g.plain.Has n) (hl : g.plain.child? n "left" = some l)
    (hr : g.plain.child? n "right" = some r)
    (hgap : l.span.stop ≤ g.offset ∧ g.offset ≤ r.span.start) :
    joins (g.commented.operator? (g.lift g.commented n)) = false := by
  rw [operator?_lift hg hn hl hr]
  unfold start stop
  rw [if_pos hgap.1, if_neg (Nat.not_lt.2 hgap.2)]
  rcases slices_across hgap.1 hgap.2 with ⟨x, y, -, -, hacross⟩ | ⟨-, hacross⟩
  · rw [hacross, Option.map_some]
    exact joins_of_marked (marked_trim (marked_comment hg x y))
  · rw [hacross]
    rfl

theorem joins_lift {n : Node} (hn : g.plain.Has n) (hform : n.form = "binary_expression") :
    joins (g.commented.operator? (g.lift g.commented n)) = joins (g.plain.operator? n) := by
  have ht := twin hg
  cases hl : g.plain.child? n "left" with
  | none =>
    unfold SourceFile.operator?
    rw [ht.child?_lift hn, hl, Option.map_none, Option.bind_none, Option.bind_none]
  | some l =>
    cases hr : g.plain.child? n "right" with
    | none =>
      unfold SourceFile.operator?
      rw [ht.child?_lift hn, ht.child?_lift hn, hl, hr, Option.map_some, Option.bind_some,
        Option.bind_some, Option.map_none, Option.bind_none, Option.bind_none]
    | some r =>
      by_cases hgap : l.span.stop ≤ g.offset ∧ g.offset ≤ r.span.start
      · have hno : joins (g.plain.operator? n) = false := by
          rw [← Bool.not_eq_true]
          intro h
          unfold joins at h
          rw [Bool.or_eq_true, beq_iff_eq, beq_iff_eq] at h
          exact hc.operator n hn hform h l hl r hr hgap
        rw [hno, joins_of_gap hg hn hl hr hgap]
      · rw [operator?_lift hg hn hl hr, slice?_between hgap]
        unfold SourceFile.operator?
        rw [hl, hr, Option.bind_some, Option.bind_some, ht.source_eq]

/-! ## Parts and origins -/

omit hc in
theorem codeChildren_lift {n : Node} (hn : g.plain.Has n) :
    g.commented.codeChildren (g.lift g.commented n) =
      (g.plain.codeChildren n).map (g.lift g.commented) := by
  have ht := twin hg
  refine ht.filter_children hn (fun c h => ?_) fun m hm => ?_
  · rw [h.kind_eq]
    decide
  · rw [(ht.same_child hm).kind_eq]

omit hg hc in
/-- The parts of a node without a kind of its own, by its form. -/
theorem parts_other {f : SourceFile} {n : Node} (hkind : n.kind = .other) :
    f.parts n =
      if n.form = "cast_expression" then
        if scalarCasts.contains (f.castType n) then [] else f.codeChildren n
      else if n.form = "binary_expression" then
        if joins (f.operator? n) then f.codeChildren n else []
      else if n.form = "conditional_expression" then
        (f.children n).filter (fun c => !c.hasField "condition")
      else if transparentForms.contains n.form then f.codeChildren n else [] := by
  unfold SourceFile.parts joins
  rw [hkind]
  dsimp only
  split <;> simp_all

omit hc in
theorem codeChildren_padded {n : Node} (hn : g.plain.Has n) :
    g.Padded g.commented (g.plain.codeChildren n)
      (g.commented.codeChildren (g.lift g.commented n)) := by
  have ht := twin hg
  rw [codeChildren_lift hg hn]
  exact ht.map_lift_has fun m hm => ht.linked.has_of_mem_children (List.mem_filter.1 hm).1

omit hc in
theorem toList_padded {n : Node} {o : Option Node} (ho : ∀ m, o = some m → m ∈ g.plain.children n) :
    g.Padded g.commented o.toList (o.map (g.lift g.commented)).toList := by
  have ht := twin hg
  cases o with
  | none => exact .nil
  | some m =>
    refine ht.map_lift_has (l := [m]) fun a ha => ?_
    rw [List.mem_singleton.1 ha]
    exact ht.linked.has_of_mem_children (ho m rfl)

theorem parts_padded_of_other {n : Node} (hn : g.plain.Has n) (hkind : n.kind = .other) :
    g.Padded g.commented (g.plain.parts n) (g.commented.parts (g.lift g.commented n)) := by
  have ht := twin hg
  have hsame := ht.same_lift hn
  have hcode := codeChildren_padded hg hn
  rw [parts_other hkind, parts_other (hsame.kind_eq.trans hkind), hsame.form_eq]
  by_cases hcast : n.form = "cast_expression"
  · rw [if_pos hcast, if_pos hcast, isScalarCast_lift hg hc hn hcast]
    split
    · exact .nil
    · exact hcode
  rw [if_neg hcast, if_neg hcast]
  by_cases hbinary : n.form = "binary_expression"
  · rw [if_pos hbinary, if_pos hbinary, joins_lift hg hc hn hbinary]
    split
    · exact hcode
    · exact .nil
  rw [if_neg hbinary, if_neg hbinary]
  by_cases hchoice : n.form = "conditional_expression"
  · rw [if_pos hchoice, if_pos hchoice]
    refine (ht.children hn).filter fun m hm => ?_
    unfold Node.hasField
    rw [(ht.same_child hm).field_eq]
  rw [if_neg hchoice, if_neg hchoice]
  split
  · exact hcode
  · exact .nil

/-- The parts of a value are the same up to the comment. -/
theorem parts_padded {n : Node} (hn : g.plain.Has n) :
    g.Padded g.commented (g.plain.parts n) (g.commented.parts (g.lift g.commented n)) := by
  have ht := twin hg
  by_cases hother : n.kind = .other
  · exact parts_padded_of_other hg hc hn hother
  · unfold SourceFile.parts
    rw [(ht.same_lift hn).kind_eq]
    cases hkind : n.kind with
    | subscript =>
      dsimp only
      rw [head?_lift hg hc hn (.inl (by rw [hkind]; decide))]
      exact toList_padded hg fun m hm => List.mem_of_mem_head? hm
    | assignment =>
      dsimp only
      rw [ht.child?_lift hn]
      exact toList_padded hg fun m hm => SourceFile.mem_children_of_child? hm
    | stringLiteral => exact codeChildren_padded hg hn
    | argument => exact codeChildren_padded hg hn
    | functionCall =>
      dsimp only
      rw [isNamedAny_lift hg hc _ hn, arguments_lift hg hc hn]
      split
      · exact ht.map_lift_has (ht.linked.stable_has.arguments hn)
      · exact .nil
    | other => exact absurd hkind hother
    | _ => exact .nil

omit hc in
theorem parts_comment {c : Node} (hhas : g.commented.Has c) (hid : c.id = g.site) :
    g.commented.parts c = [] := by
  unfold SourceFile.parts
  rw [((twin hg).isComment hhas hid).kind_eq]

/-- A variable has its value from the same places. -/
theorem origins_lift {n : Node} (hn : g.plain.Has n) :
    g.commented.origins (g.lift g.commented n) =
      (g.plain.origins n).map (g.lift g.commented) := by
  unfold SourceFile.origins
  rw [((twin hg).same_lift hn).kind_eq]
  by_cases hkind : n.kind = .var
  · rw [value_lift hg hc hn (by rw [hkind]; decide), bindings_lift hg hc _ hn]
    split
    · rw [List.filterMap_map, List.map_filterMap]
      refine List.filterMap_congr fun b _ => ?_
      cases b <;> rfl
    · rw [List.map_nil]
  · simp [hkind]

end PhpAudit.Insertion
