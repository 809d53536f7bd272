import PhpAudit.Proofs.Comment.Reads
import PhpAudit.Proofs.Comment.Taint
import PhpAudit.Proofs.Rule.Notices

/-!
# A comment changes no finding

A comment that is clear of the places where queries look at raw text or at a first or last child changes no
answer: the file declares the same classes (`declaredClasses_eq`), so the hierarchy of the project is the
same, every node has its former taint and class, and the built-in rules report the same nodes in the same
order (`Clear.sameAnswers`). `answers_differ` has comments in places that are not clear.
-/

namespace PhpAudit

namespace Insertion

variable {g : Insertion} (hg : g.Valid) (hc : g.Clear)
include hg hc

/-! ## Declared classes -/

theorem clauseNames_lift {n : Node} (hn : g.plain.Has n) :
    g.commented.clauseNames (g.lift g.commented n) = g.plain.clauseNames n := by
  have ht := twin hg
  unfold SourceFile.clauseNames
  rw [ht.filter_children hn (q := fun c => c.kind.isName) (fun c h => by rw [h.kind_eq]; decide)
    fun m hm => by rw [(ht.same_child hm).kind_eq], List.map_map]
  refine List.map_congr_left fun m hm => ?_
  obtain ⟨hm, hkind⟩ := List.mem_filter.1 hm
  have hhas := ht.linked.has_of_mem_children hm
  rw [Function.comp_apply, resolved_lift hg hc hhas, clauseName_lift hg hc hhas hkind]

theorem superNames_lift {clause : Kind} (hclause : clause ≠ .comment) {n : Node}
    (hn : g.plain.Has n) :
    g.commented.superNames (g.lift g.commented n) clause = g.plain.superNames n clause := by
  have ht := twin hg
  unfold SourceFile.superNames
  rw [ht.filter_children hn (q := fun c => decide (c.kind = clause))
    (fun c h => by rw [h.kind_eq]; exact decide_eq_false hclause.symm)
    fun m hm => by rw [(ht.same_child hm).kind_eq], List.flatMap_map]
  refine List.flatMap_congr fun m hm => ?_
  exact clauseNames_lift hg hc (ht.linked.has_of_mem_children (List.mem_filter.1 hm).1)

theorem methodNames_lift {n : Node} (hn : g.plain.Has n) :
    g.commented.methodNames (g.lift g.commented n) = g.plain.methodNames n := by
  have ht := twin hg
  have hbody : g.commented.classBody? (g.lift g.commented n) =
      (g.plain.classBody? n).map (g.lift g.commented) := by
    unfold SourceFile.classBody?
    rw [ht.child?_lift hn, ht.firstOf?_lift hn (by decide)]
    simp only [Option.orElse_eq_orElse, Option.orElse_eq_or, Option.map_or]
  unfold SourceFile.methodNames
  rw [hbody]
  cases hb : g.plain.classBody? n with
  | none => rw [Option.map_none]
  | some body =>
    have hhas : g.plain.Has body := by
      unfold SourceFile.classBody? at hb
      rw [Option.orElse_eq_orElse, Option.orElse_eq_or] at hb
      rcases Option.or_eq_some_iff.1 hb with h | ⟨-, h⟩
      · exact ht.linked.has_of_mem_children (SourceFile.mem_children_of_child? h)
      · exact ht.linked.has_of_mem_children (SourceFile.mem_children_of_firstOf? h)
    rw [Option.map_some]
    dsimp only
    rw [ht.filter_children hhas (q := fun c => decide (c.kind = .method))
      (fun c h => by rw [h.kind_eq]; decide) fun m hm => by rw [(ht.same_child hm).kind_eq],
      List.filterMap_map]
    refine congrArg _ (List.filterMap_congr fun m hm => ?_)
    obtain ⟨hm, hkind⟩ := List.mem_filter.1 hm
    have hkind : m.kind = .method := by simpa using hkind
    exact value_lift hg hc (ht.linked.has_of_mem_children hm) (by rw [hkind]; decide)

theorem describe?_lift {n : Node} (hn : g.plain.Has n) (hkind : n.kind.isClassLike = true) :
    g.commented.describe? (g.lift g.commented n) = g.plain.describe? n := by
  unfold SourceFile.describe?
  rw [name?_lift hg hc hn hkind, superNames_lift hg hc (by decide) hn,
    superNames_lift hg hc (by decide) hn, methodNames_lift hg hc hn,
    ((twin hg).same_lift hn).kind_eq]

theorem declaredClasses_eq : g.commented.declaredClasses = g.plain.declaredClasses := by
  have ht := twin hg
  unfold SourceFile.declaredClasses
  rw [ht.root?_eq]
  cases hroot : g.plain.root? with
  | none => rw [Option.map_none]
  | some root =>
    have hhas := ht.linked.has hroot
    rw [Option.map_some]
    dsimp only
    rw [(ht.descendants hhas).filter_map (q := fun n => n.kind.isClassLike)
      (fun c hc hid => by rw [(ht.isComment hc hid).kind_eq]; rfl)
      fun m hm => by rw [(ht.same_lift (ht.has_descendants hhas m hm)).kind_eq],
      List.filterMap_map]
    refine List.filterMap_congr fun m hm => ?_
    obtain ⟨hm, hkind⟩ := List.mem_filter.1 hm
    exact describe?_lift hg hc (ht.has_descendants hhas m hm) hkind

theorem build_eq (front back : List SourceFile) :
    Hierarchy.build (front ++ g.commented :: back) = Hierarchy.build (front ++ g.plain :: back) := by
  unfold Hierarchy.build
  rw [List.flatMap_append, List.flatMap_append, List.flatMap_cons, List.flatMap_cons,
    declaredClasses_eq hg hc]

end Insertion

namespace Insertion

/-- In a project that has the file between others, the file with the comment gives the same answers: every
node has the taint and the class it had, and each built-in rule reports the same nodes, on the same lines
and in the same order. The other files are looked at in the same hierarchy. -/
structure SameAnswers (g : Insertion) (front back : List SourceFile) : Prop where
  hierarchy : Hierarchy.build (front ++ g.commented :: back) = .build (front ++ g.plain :: back)
  nodes : ∀ i n, g.plain.node? i = some n → ∃ n', g.commented.node? (g.up i) = some n' ∧
    (Context.mk g.commented (.build (front ++ g.commented :: back))).isTainted n' =
      (Context.mk g.plain (.build (front ++ g.plain :: back))).isTainted n ∧
    (Context.mk g.commented (.build (front ++ g.commented :: back))).classOf? n' =
      (Context.mk g.plain (.build (front ++ g.plain :: back))).classOf? n
  notices : ∀ r ∈ Catalog.builtin.rules,
    (r.notices ⟨g.commented, .build (front ++ g.commented :: back)⟩).map (·.node.id) =
      (r.notices ⟨g.plain, .build (front ++ g.plain :: back)⟩).map (fun x => g.up x.node.id)
  findings : ∀ r ∈ Catalog.builtin.rules,
    (r.findings ⟨g.commented, .build (front ++ g.commented :: back)⟩).map
        (fun x => (x.ruleId, x.line)) =
      (r.findings ⟨g.plain, .build (front ++ g.plain :: back)⟩).map (fun x => (x.ruleId, x.line))

variable {g : Insertion} (hg : g.Valid) (hc : g.Clear)
include hg hc

omit hc in
theorem expect_lift (kind : Kind) (expected : String) {n : Node} (hn : g.plain.Has n) :
    (g.lift g.commented n).expect kind expected = n.expect kind expected := by
  have hsame := (twin hg).same_lift hn
  unfold Node.expect Node.line
  rw [hsame.kind_eq, hsame.line_eq]

theorem parameterName_lift {n : Node} (hn : g.plain.Has n) :
    g.commented.parameterName (g.lift g.commented n) = g.plain.parameterName n := by
  unfold SourceFile.parameterName
  rw [expect_lift hg _ _ hn]
  unfold Node.expect
  by_cases hkind : n.kind = .parameter
  · rw [value_lift hg hc hn (by rw [hkind]; decide)]
  · rw [if_neg hkind]
    rfl

omit hc in
theorem attributesOf_lift {n : Node} (hn : g.plain.Has n) :
    g.commented.attributesOf (g.lift g.commented n) =
      (g.plain.attributesOf n).map (g.lift g.commented) := by
  have ht := twin hg
  have hin : ∀ m ∈ (g.plain.children n).filter (fun c => decide (c.kind = .attrList)),
      g.plain.Has m := fun m hm => ht.linked.has_of_mem_children (List.mem_filter.1 hm).1
  have hpadded : g.Padded g.commented
      (((g.plain.children n).filter (fun c => decide (c.kind = .attrList))).flatMap
        g.plain.descendants)
      ((((g.plain.children n).filter (fun c => decide (c.kind = .attrList))).map
        (g.lift g.commented)).flatMap g.commented.descendants) := by
    refine (ht.map_lift_has hin).flatMap (fun a ha b hb => ?_) (fun c hhas hid => ?_) fun m hm => ?_
    · obtain ⟨m, hm, rfl⟩ := List.mem_map.1 ha
      exact ht.linked'.stable_has.preorder (ht.has_lift (hin m hm)) b hb
    · exact ht.preorder_comment hhas hid
    · exact ht.descendants (hin m hm)
  unfold SourceFile.attributesOf
  rw [ht.filter_children hn (q := fun c => decide (c.kind = .attrList))
    (fun c h => by rw [h.kind_eq]; decide) fun m hm => by rw [(ht.same_child hm).kind_eq]]
  refine hpadded.filter_map (fun c hhas hid => ?_) fun m hm => ?_
  · rw [(ht.isComment hhas hid).kind_eq]
    decide
  · obtain ⟨list, hlist, hm⟩ := List.mem_flatMap.1 hm
    rw [(ht.same_lift (ht.has_descendants (hin list hlist) m hm)).kind_eq]

theorem attributeIsNamed_lift (name : String) {n : Node} (hn : g.plain.Has n) :
    g.commented.attributeIsNamed name (g.lift g.commented n) = g.plain.attributeIsNamed name n := by
  unfold SourceFile.attributeIsNamed SourceFile.attributeName
  rw [expect_lift hg _ _ hn]
  unfold Node.expect
  by_cases hkind : n.kind = .attr
  · rw [value_lift hg hc hn (by rw [hkind]; decide)]
  · rw [if_neg hkind]
    rfl

theorem hasAttribute_lift (name : String) {n : Node} (hn : g.plain.Has n) :
    g.commented.hasAttribute name (g.lift g.commented n) = g.plain.hasAttribute name n := by
  have ht := twin hg
  have hany : ∀ attributes : List Node, (∀ a ∈ attributes, g.plain.Has a) →
      (attributes.map (g.lift g.commented)).anyM (g.commented.attributeIsNamed name) =
        attributes.anyM (g.plain.attributeIsNamed name) := by
    intro attributes hin
    induction attributes with
    | nil => rw [List.map_nil, List.anyM_nil, List.anyM_nil]
    | cons a attributes ih =>
      rw [List.map_cons, List.anyM_cons, List.anyM_cons,
        attributeIsNamed_lift hg hc name (hin a List.mem_cons_self),
        ih fun b hb => hin b (List.mem_cons_of_mem _ hb)]
  have hin : ∀ a ∈ g.plain.attributesOf n, g.plain.Has a := by
    intro a ha
    obtain ⟨list, hlist, ha⟩ := List.mem_flatMap.1 (List.mem_filter.1 ha).1
    exact ht.has_descendants (ht.linked.has_of_mem_children (List.mem_filter.1 hlist).1) a ha
  unfold SourceFile.hasAttribute SourceFile.parameterAttributes
  rw [expect_lift hg _ _ hn, attributesOf_lift hg hn]
  simp only [bind_assoc, pure_bind]
  rw [hany _ hin]

/-! ## Findings -/

section Notices
variable (h : Hierarchy)

theorem ifFirstTainted_lift {n : Node} (hn : g.plain.Has n) (message message' : Node → String) :
    (Sink.ifFirstTainted ⟨g.commented, h⟩ (g.lift g.commented n) message').map (·.node) =
      (Sink.ifFirstTainted ⟨g.plain, h⟩ n message).map fun x => g.lift g.commented x.node := by
  unfold Sink.ifFirstTainted
  dsimp only
  rw [argument?_lift hg hc 0 hn]
  cases hfirst : g.plain.argument? n 0 with
  | none => rw [Option.map_none, List.map_nil, List.map_nil]
  | some first =>
    have hhas := (twin hg).linked.stable_has.arguments hn first (List.mem_of_getElem? hfirst)
    rw [Option.map_some]
    dsimp only
    rw [isTainted_lift hg hc h hhas]
    split
    · rw [List.map_singleton, List.map_singleton]
    · rw [List.map_nil, List.map_nil]

theorem isRawQuery_lift {n : Node} (hn : g.plain.Has n) :
    Sink.isRawQuery ⟨g.commented, h⟩ (g.lift g.commented n) = Sink.isRawQuery ⟨g.plain, h⟩ n := by
  unfold Sink.isRawQuery
  dsimp only
  rw [((twin hg).same_lift hn).kind_eq, isNamedAny_lift hg hc _ hn, isNamedAny_lift hg hc _ hn,
    staticClass?_lift hg hc h hn]

theorem checkAllowList_lift {n : Node} (hn : g.plain.Has n) :
    (Sink.checkAllowList ⟨g.commented, h⟩ (g.lift g.commented n)).map (·.node) =
      (Sink.checkAllowList ⟨g.plain, h⟩ n).map fun x => g.lift g.commented x.node := by
  have ht := twin hg
  have hs := ht.linked.stable_has
  have hclass : (g.commented.chainHead? (g.lift g.commented n)).bind
        (Context.mk g.commented h).classOf? =
      (g.plain.chainHead? n).bind (Context.mk g.plain h).classOf? := by
    rw [chainHead?_lift hg hc hn, Option.bind_map]
    exact Option.bind_congr fun m hm => classOf?_lift hg hc h (hs.chainHead? hn hm)
  have hany : (g.commented.arguments (g.lift g.commented n)).any (Context.mk g.commented h).isTainted =
      (g.plain.arguments n).any (Context.mk g.plain h).isTainted := by
    rw [arguments_lift hg hc hn, List.any_map, Bool.eq_iff_iff, List.any_eq_true, List.any_eq_true]
    refine exists_congr fun m => and_congr_right fun hm => ?_
    rw [Function.comp_apply, isTainted_lift hg hc h (hs.arguments hn m hm)]
  unfold Sink.checkAllowList
  dsimp only
  rw [isNamedAny_lift hg hc _ hn, hclass, hany]
  split
  · split
    · split
      · rw [List.map_singleton, List.map_singleton]
      · rw [List.map_nil, List.map_nil]
    · rw [List.map_nil, List.map_nil]
  · rw [List.map_nil, List.map_nil]

theorem checkSensitive_lift {n : Node} (hn : g.plain.Has n) :
    (Sensitive.rule.noticesAt ⟨g.commented, h⟩ (g.lift g.commented n)).map (·.node) =
      (Sensitive.rule.noticesAt ⟨g.plain, h⟩ n).map fun x => g.lift g.commented x.node := by
  have hcheck : ∀ cx m, Sensitive.rule.check cx m = Sensitive.check cx m := fun _ _ => rfl
  unfold Rule.noticesAt
  rw [hcheck, hcheck]
  unfold Sensitive.check
  dsimp only
  rw [parameterName_lift hg hc hn, hasAttribute_lift hg hc _ hn]
  cases g.plain.parameterName n with
  | error e => rfl
  | ok name =>
    cases hs : Sensitive.isSensitive name with
    | false => simp only [bind, Except.bind, hs]; rfl
    | true =>
      cases ha : g.plain.hasAttribute Sensitive.marker n with
      | error e => simp only [bind, Except.bind, hs]; rfl
      | ok found =>
        cases found with
        | true => simp only [bind, Except.bind, hs]; rfl
        | false => simp only [bind, Except.bind, hs]; rfl

/-- A built-in rule reports a node with the comment exactly if it does without. -/
theorem noticesAt_lift {r : Rule} (hr : r ∈ Catalog.builtin.rules) {n : Node} (hn : g.plain.Has n) :
    (r.noticesAt ⟨g.commented, h⟩ (g.lift g.commented n)).map (·.node) =
      (r.noticesAt ⟨g.plain, h⟩ n).map fun x => g.lift g.commented x.node := by
  simp only [Catalog.builtin, List.mem_cons, List.not_mem_nil, or_false] at hr
  rcases hr with rfl | rfl | rfl | rfl | rfl
  · have hat : ∀ cx m, Sink.deserialization.noticesAt cx m = Sink.checkUnserialize cx m :=
      fun _ _ => rfl
    rw [hat, hat]
    unfold Sink.checkUnserialize
    dsimp only
    rw [isNamed_lift hg hc _ hn]
    split
    · exact ifFirstTainted_lift hg hc h hn _ _
    · rw [List.map_nil, List.map_nil]
  · exact checkSensitive_lift hg hc h hn
  · have hat : ∀ cx m, Sink.queryBuilderSort.noticesAt cx m = Sink.checkAllowList cx m :=
      fun _ _ => rfl
    rw [hat, hat]
    exact checkAllowList_lift hg hc h hn
  · have hat : ∀ cx m, Sink.commandInjection.noticesAt cx m = Sink.checkShell cx m :=
      fun _ _ => rfl
    rw [hat, hat]
    unfold Sink.checkShell
    dsimp only
    rw [isNamedAny_lift hg hc _ hn]
    split
    · exact ifFirstTainted_lift hg hc h hn _ _
    · rw [List.map_nil, List.map_nil]
  · have hat : ∀ cx m, Sink.rawSql.noticesAt cx m = Sink.checkRawSql cx m := fun _ _ => rfl
    rw [hat, hat]
    unfold Sink.checkRawSql
    rw [isRawQuery_lift hg hc h hn]
    split
    · exact ifFirstTainted_lift hg hc h hn _ _
    · rw [List.map_nil, List.map_nil]

omit hg hc h in
theorem comment_notMem_kinds : ∀ r ∈ Catalog.builtin.rules, r.kinds.contains .comment = false := by
  intro r hr
  simp only [Catalog.builtin, List.mem_cons, List.not_mem_nil, or_false] at hr
  rcases hr with rfl | rfl | rfl | rfl | rfl <;> rfl

/-- A built-in rule reports the same nodes in the same order. -/
theorem notices_lift {r : Rule} (hr : r ∈ Catalog.builtin.rules) :
    (r.notices ⟨g.commented, h⟩).map (·.node) =
      (r.notices ⟨g.plain, h⟩).map fun x => g.lift g.commented x.node := by
  have ht := twin hg
  unfold Rule.notices
  dsimp only
  rw [ht.root?_eq]
  cases hroot : g.plain.root? with
  | none => rw [Option.map_none, List.map_nil, List.map_nil]
  | some root =>
    have hhas := ht.linked.has hroot
    rw [Option.map_some]
    dsimp only
    rw [(ht.descendants hhas).filter_map (q := fun n => r.kinds.contains n.kind)
      (fun c hc hid => by rw [(ht.isComment hc hid).kind_eq]; exact comment_notMem_kinds r hr)
      fun m hm => by rw [(ht.same_lift (ht.has_descendants hhas m hm)).kind_eq],
      List.flatMap_map, List.map_flatMap, List.map_flatMap]
    refine List.flatMap_congr fun m hm => ?_
    exact noticesAt_lift hg hc h hr (ht.has_descendants hhas m (List.mem_filter.1 hm).1)

omit hc in
theorem has_of_mem_notices {r : Rule} (hr : r ∈ Catalog.builtin.rules) {x : Notice}
    (hx : x ∈ r.notices ⟨g.plain, h⟩) : g.plain.Has x.node := by
  have ht := twin hg
  unfold Rule.notices at hx
  dsimp only at hx
  cases hroot : g.plain.root? with
  | none =>
    rw [hroot] at hx
    cases hx
  | some root =>
    rw [hroot] at hx
    obtain ⟨m, hm, hx⟩ := List.mem_flatMap.1 hx
    rw [(concerns_noticesAt hr _ _).node_eq hx]
    exact ht.has_descendants (ht.linked.has hroot) m (List.mem_filter.1 hm).1

end Notices

theorem Clear.sameAnswers (front back : List SourceFile) : g.SameAnswers front back := by
  have ht := twin hg
  have hnotices := fun {r} (hr : r ∈ Catalog.builtin.rules) =>
    notices_lift hg hc (.build (front ++ g.plain :: back)) hr
  have hsame := fun {r} (hr : r ∈ Catalog.builtin.rules) x hx =>
    ht.same_lift (has_of_mem_notices hg (.build (front ++ g.plain :: back)) hr (x := x) hx)
  constructor
  case hierarchy => exact build_eq hg hc front back
  -- the rest is about one file in one hierarchy
  all_goals rw [build_eq hg hc]
  case nodes =>
    intro i n hn
    have hhas := ht.linked.has hn
    refine ⟨g.lift g.commented n, ?_, isTainted_lift hg hc _ hhas, classOf?_lift hg hc _ hhas⟩
    rw [ht.node?_up, hn, Option.map_some]
  case notices =>
    intro r hr
    have hids := congrArg (List.map (·.id)) (hnotices hr)
    rw [List.map_map, List.map_map] at hids
    refine Eq.trans hids (List.map_congr_left fun x hx => ?_)
    exact (hsame hr x hx).id_eq
  case findings =>
    intro r hr
    have hlines := congrArg (List.map fun m : Node => (r.id, m.place.line)) (hnotices hr)
    rw [List.map_map, List.map_map] at hlines
    rw [Rule.findings_eq, Rule.findings_eq, List.map_map, List.map_map]
    refine Eq.trans hlines (List.map_congr_left fun x hx => ?_)
    simp only [Function.comp_apply]
    rw [(hsame hr x hx).line_eq]
    rfl

omit hg hc

/-- A comment is clear exactly if every raw text, first child and last child that the queries read is the
same with it, and then the file gives the same answers in every project. -/
theorem same_answers (hg : g.Valid) :
    (g.Clear ↔ g.ReadsAlike) ∧ (g.Clear → ∀ front back, g.SameAnswers front back) :=
  ⟨clear_iff_readsAlike hg, fun hc => hc.sameAnswers hg⟩

/-! ## Comments in a loop -/

/-- The outline of `<?php foreach ($_GET as $a) { exec('x' . $a); }`. -/
def loopRows : Outline :=
  [⟨0, "program", none, ⟨0, 47⟩⟩, ⟨1, "php_tag", none, ⟨0, 5⟩⟩,
    ⟨1, "foreach_statement", none, ⟨6, 47⟩⟩, ⟨2, "variable_name", none, ⟨15, 20⟩⟩,
    ⟨3, "name", none, ⟨16, 20⟩⟩, ⟨2, "variable_name", none, ⟨24, 26⟩⟩,
    ⟨3, "name", none, ⟨25, 26⟩⟩, ⟨2, "compound_statement", some "body", ⟨28, 47⟩⟩,
    ⟨3, "expression_statement", none, ⟨30, 45⟩⟩,
    ⟨4, "function_call_expression", none, ⟨30, 44⟩⟩, ⟨5, "name", some "function", ⟨30, 34⟩⟩,
    ⟨5, "arguments", some "arguments", ⟨34, 44⟩⟩, ⟨6, "argument", none, ⟨35, 43⟩⟩,
    ⟨7, "binary_expression", none, ⟨35, 43⟩⟩, ⟨8, "string", some "left", ⟨35, 38⟩⟩,
    ⟨9, "string_value", none, ⟨36, 37⟩⟩, ⟨8, "variable_name", some "right", ⟨41, 43⟩⟩,
    ⟨9, "name", none, ⟨42, 43⟩⟩]

/-- A comment in front of the variable of the loop. -/
def beforeVariable : Insertion where
  path := "loop.php"
  before := "<?php foreach ($_GET as "
  lead := ""
  text := "/* c */"
  trail := " "
  after := "$a) \x7b exec('x' . $a); \x7d"
  rowsBefore := loopRows.take 5
  rowsAfter := loopRows.drop 5
  depth := 2

theorem forall_has {f : SourceFile} {P : Node → Prop} (h : ∀ n ∈ f.nodes.toList, P n) :
    ∀ n, f.Has n → P n := by
  intro n hn
  exact h n (Array.mem_toList_iff.2 (Array.mem_of_getElem? hn))

theorem valid_beforeVariable : beforeVariable.Valid := by
  constructor <;> decide +kernel

theorem clear_beforeVariable : beforeVariable.Clear := by
  constructor
  case names => exact forall_has (by decide +kernel)
  case declared => exact forall_has (by decide +kernel)
  case head => decide +kernel
  case loop => decide +kernel
  case argument => decide +kernel
  case operator => exact forall_has (by decide +kernel)
  case cast => exact forall_has (by decide +kernel)
  case imports => exact forall_has (by decide +kernel)
  case input => exact forall_has (by decide +kernel)
  case regions => exact innermostIdx?_regions valid_beforeVariable (by decide +kernel)

/-- The command in the loop is reported with the comment in its head as it is without. -/
theorem same_answers_beforeVariable :
    beforeVariable.Valid ∧ beforeVariable.Clear ∧
      (Sink.commandInjection.findings ⟨beforeVariable.plain, .build [beforeVariable.plain]⟩).map
        (fun x => (x.ruleId, x.line)) = [("php.command-injection", 1)] ∧
      (Sink.commandInjection.findings
          ⟨beforeVariable.commented, .build [beforeVariable.commented]⟩).map
        (fun x => (x.ruleId, x.line)) = [("php.command-injection", 1)] := by
  have hplain : (Sink.commandInjection.findings
      ⟨beforeVariable.plain, .build [beforeVariable.plain]⟩).map (fun x => (x.ruleId, x.line)) =
      [("php.command-injection", 1)] := by decide +kernel
  have hsame := (same_answers valid_beforeVariable).2 clear_beforeVariable [] []
  have hfindings := hsame.findings Sink.commandInjection (by simp [Catalog.builtin])
  exact ⟨valid_beforeVariable, clear_beforeVariable, hplain, hfindings.trans hplain⟩

/-! ## Comments that are in the way -/

/-- A comment in front of what the loop runs over. -/
def beforeSource : Insertion where
  path := "loop.php"
  before := "<?php foreach ("
  lead := ""
  text := "/* c */"
  trail := " "
  after := "$_GET as $a) \x7b exec('x' . $a); \x7d"
  rowsBefore := loopRows.take 3
  rowsAfter := loopRows.drop 3
  depth := 2

/-- A comment beside the operator. -/
def besideOperator : Insertion where
  path := "loop.php"
  before := "<?php foreach ($_GET as $a) \x7b exec('x'"
  lead := " "
  text := "/* c */"
  trail := ""
  after := " . $a); \x7d"
  rowsBefore := loopRows.take 16
  rowsAfter := loopRows.drop 16
  depth := 8

/-- The outline of `<?php use A\B as C; use function A\f; (new C); new f; exec(command: $_GET);`. -/
def importRows : Outline :=
  [⟨0, "program", none, ⟨0, 75⟩⟩, ⟨1, "php_tag", none, ⟨0, 5⟩⟩,
    ⟨1, "namespace_use_declaration", none, ⟨6, 19⟩⟩,
    ⟨2, "namespace_use_clause", none, ⟨10, 18⟩⟩, ⟨3, "qualified_name", none, ⟨10, 13⟩⟩,
    ⟨4, "namespace_name_as_prefix", none, ⟨10, 12⟩⟩, ⟨5, "namespace_name", none, ⟨10, 11⟩⟩,
    ⟨6, "name", none, ⟨10, 11⟩⟩, ⟨4, "name", none, ⟨12, 13⟩⟩,
    ⟨3, "namespace_aliasing_clause", none, ⟨14, 18⟩⟩, ⟨4, "name", none, ⟨17, 18⟩⟩,
    ⟨1, "namespace_use_declaration", none, ⟨20, 37⟩⟩,
    ⟨2, "namespace_use_clause", none, ⟨33, 36⟩⟩, ⟨3, "qualified_name", none, ⟨33, 36⟩⟩,
    ⟨4, "namespace_name_as_prefix", none, ⟨33, 35⟩⟩, ⟨5, "namespace_name", none, ⟨33, 34⟩⟩,
    ⟨6, "name", none, ⟨33, 34⟩⟩, ⟨4, "name", none, ⟨35, 36⟩⟩,
    ⟨1, "expression_statement", none, ⟨38, 46⟩⟩,
    ⟨2, "parenthesized_expression", none, ⟨38, 45⟩⟩,
    ⟨3, "object_creation_expression", none, ⟨39, 44⟩⟩, ⟨4, "name", none, ⟨43, 44⟩⟩,
    ⟨1, "expression_statement", none, ⟨47, 53⟩⟩,
    ⟨2, "object_creation_expression", none, ⟨47, 52⟩⟩, ⟨3, "name", none, ⟨51, 52⟩⟩,
    ⟨1, "expression_statement", none, ⟨54, 75⟩⟩,
    ⟨2, "function_call_expression", none, ⟨54, 74⟩⟩, ⟨3, "name", some "function", ⟨54, 58⟩⟩,
    ⟨3, "arguments", some "arguments", ⟨58, 74⟩⟩, ⟨4, "argument", none, ⟨59, 73⟩⟩,
    ⟨5, "name", some "name", ⟨59, 66⟩⟩, ⟨5, "variable_name", none, ⟨68, 73⟩⟩,
    ⟨6, "name", none, ⟨69, 73⟩⟩]

/-- A comment between an imported name and its alias. -/
def beforeAlias : Insertion where
  path := "import.php"
  before := "<?php use A\\B"
  lead := " "
  text := "/* c */"
  trail := ""
  after := " as C; use function A\\f; (new C); new f; exec(command: $_GET);"
  rowsBefore := importRows.take 9
  rowsAfter := importRows.drop 9
  depth := 3

/-- A comment between the two keywords of an import of functions. -/
def behindUse : Insertion where
  path := "import.php"
  before := "<?php use A\\B as C; use"
  lead := " "
  text := "/* c */"
  trail := ""
  after := " function A\\f; (new C); new f; exec(command: $_GET);"
  rowsBefore := importRows.take 12
  rowsAfter := importRows.drop 12
  depth := 2

/-- A comment behind an opening parenthesis. -/
def inParentheses : Insertion where
  path := "import.php"
  before := "<?php use A\\B as C; use function A\\f; ("
  lead := ""
  text := "/* c */"
  trail := " "
  after := "new C); new f; exec(command: $_GET);"
  rowsBefore := importRows.take 20
  rowsAfter := importRows.drop 20
  depth := 3

/-- A comment between the name of an argument and its value. -/
def beforeValue : Insertion where
  path := "import.php"
  before := "<?php use A\\B as C; use function A\\f; (new C); new f; exec(command:"
  lead := " "
  text := "/* c */"
  trail := ""
  after := " $_GET);"
  rowsBefore := importRows.take 31
  rowsAfter := importRows.drop 31
  depth := 5

/-- Comments that are not clear change answers. Beside an operator the concatenation is no longer tainted;
in front of what a loop runs over and of a named argument's value the command is no longer reported; behind
an imported name, between the keywords of an import and behind a parenthesis an expression gets another
class or none. -/
theorem answers_differ :
    (besideOperator.Valid ∧
      (besideOperator.plain.node? 13).map
        (Context.mk besideOperator.plain (.build [besideOperator.plain])).isTainted = some true ∧
      (besideOperator.commented.node? (besideOperator.up 13)).map
        (Context.mk besideOperator.commented (.build [besideOperator.commented])).isTainted =
          some false) ∧
    (∀ g ∈ [besideOperator, beforeSource, beforeValue], g.Valid ∧
      (Sink.commandInjection.findings ⟨g.plain, .build [g.plain]⟩).map (·.line) = [1] ∧
      Sink.commandInjection.findings ⟨g.commented, .build [g.commented]⟩ = []) ∧
    ∀ p ∈ [(beforeAlias, 20, some "A\\B", some "C"), (behindUse, 23, some "f", some "A\\f"),
        (inParentheses, 19, some "A\\B", none)], p.1.Valid ∧
      (p.1.plain.node? p.2.1).bind (Context.mk p.1.plain (.build [p.1.plain])).classOf? = p.2.2.1 ∧
      (p.1.commented.node? (p.1.up p.2.1)).bind
        (Context.mk p.1.commented (.build [p.1.commented])).classOf? = p.2.2.2 := by
  have hoperator : besideOperator.Valid := by constructor <;> decide +kernel
  have hsource : beforeSource.Valid := by constructor <;> decide +kernel
  have hvalue : beforeValue.Valid := by constructor <;> decide +kernel
  have halias : beforeAlias.Valid := by constructor <;> decide +kernel
  have huse : behindUse.Valid := by constructor <;> decide +kernel
  have hparens : inParentheses.Valid := by constructor <;> decide +kernel
  refine ⟨⟨hoperator, by decide +kernel, by decide +kernel⟩, ?_, ?_⟩
  · intro g hin
    simp only [List.mem_cons, List.not_mem_nil, or_false] at hin
    rcases hin with rfl | rfl | rfl
    · exact ⟨hoperator, by decide +kernel, by decide +kernel⟩
    · exact ⟨hsource, by decide +kernel, by decide +kernel⟩
    · exact ⟨hvalue, by decide +kernel, by decide +kernel⟩
  · intro p hin
    simp only [List.mem_cons, List.not_mem_nil, or_false] at hin
    rcases hin with rfl | rfl | rfl
    · exact ⟨halias, by decide +kernel, by decide +kernel⟩
    · exact ⟨huse, by decide +kernel, by decide +kernel⟩
    · exact ⟨hparens, by decide +kernel, by decide +kernel⟩

end Insertion

end PhpAudit
