import PhpAudit.Proofs.Comment.FullName
import PhpAudit.Query.Binding

/-!
# Bindings in a commented file

A variable has the same bindings with the comment, node for node (`bindings_lift`). A comment binds nothing
and mentions no variable. In a loop it is neither the first child nor the last, so that what the loop runs
over and the variables in its head are found where they were.
-/

namespace PhpAudit

/-- A binding with its nodes replaced. -/
def Binding.map (h : Node → Node) : Binding → Binding
  | assigned site value => assigned (h site) (value.map h)
  | received site => received (h site)
  | looped site source => looped (h site) (h source)

namespace Insertion

variable {g : Insertion} (hg : g.Valid) (hc : g.Clear)
include hg hc

/-! ## Mentions -/

theorem isVar_lift (name : String) {n : Node} (hn : g.plain.Has n) :
    (g.lift g.commented n).isVar name = n.isVar name := by
  unfold Node.isVar
  rw [((twin hg).same_lift hn).kind_eq]
  by_cases hkind : n.kind = .var
  · rw [value_lift hg hc hn (by rw [hkind]; decide)]
  · simp [hkind]

theorem mentions_lift (name : String) {n : Node} (hn : g.plain.Has n) :
    g.commented.mentions name (g.lift g.commented n) = g.plain.mentions name n := by
  have ht := twin hg
  refine (ht.descendants hn).any_eq (fun c hhas hid => ?_) fun m hm => ?_
  · simp [Node.isVar, (ht.isComment hhas hid).kind_eq]
  · exact isVar_lift hg hc name (ht.has_descendants hn m hm)

omit hc in
theorem mentions_comment (name : String) {c : Node} (hhas : g.commented.Has c) (hid : c.id = g.site) :
    g.commented.mentions name c = false := by
  have ht := twin hg
  refine List.any_eq_false.2 fun m hm => ?_
  have hm' := ht.linked'.stable_has.preorder hhas m hm
  have hkind := (ht.isComment hm' (ht.preorder_comment hhas hid m hm)).kind_eq
  simp [Node.isVar, hkind]

/-! ## Single bindings -/

theorem binds_lift (name : String) {target : Node} (hn : g.plain.Has target) :
    g.commented.binds name (g.lift g.commented target) = g.plain.binds name target := by
  have hsame := (twin hg).same_lift hn
  unfold SourceFile.binds
  rw [hsame.kind_eq, hsame.form_eq, mentions_lift hg hc name hn]
  by_cases hkind : target.kind = .var
  · rw [value_lift hg hc hn (by rw [hkind]; decide)]
  · rw [if_neg hkind, if_neg hkind]

theorem assignment?_lift (name : String) {cursor site : Node} (hcursor : g.plain.Has cursor)
    (hsite : g.plain.Has site) :
    g.commented.assignment? (g.lift g.commented cursor) name (g.lift g.commented site) =
      (g.plain.assignment? cursor name site).map (Binding.map (g.lift g.commented)) := by
  have ht := twin hg
  have hcontains : (g.lift g.commented site).span.contains (g.lift g.commented cursor).span.start =
      site.span.contains cursor.span.start := by
    have h := contains_stop (g := g) site.span.start site.span.stop cursor.span.start
    rw [← (ht.same_lift hsite).start_eq, ← (ht.same_lift hsite).stop_eq,
      ← (ht.same_lift hcursor).start_eq] at h
    exact h
  unfold SourceFile.assignment?
  rw [hcontains, ht.child?_lift hsite, ht.child?_lift hsite]
  by_cases h : site.span.contains cursor.span.start = true
  · rw [if_pos h, if_pos h, Option.map_none]
  · rw [if_neg h, if_neg h, Option.bind_map, Option.map_bind]
    refine Option.bind_congr fun target htarget => ?_
    have hhas := ht.linked.has_of_mem_children (SourceFile.mem_children_of_child? htarget)
    rw [Function.comp_apply, Function.comp_apply, binds_lift hg hc name hhas]
    split
    · rw [Option.map_some, Binding.map]
    · rw [Option.map_none]

omit hg hc in
theorem loop?_eq (f : SourceFile) (name : String) (site : Node) :
    f.loop? name site = (f.children site).head?.bind fun source =>
      if (f.children site).tail.dropLast.any (f.mentions name) then some (.looped site source)
      else none := by
  unfold SourceFile.loop?
  cases f.children site with
  | nil => rfl
  | cons source rest => rfl

/-- A loop starts and ends with the same children. -/
theorem loop_ends {site : Node} (hsite : g.plain.Has site) (hkind : site.kind = .foreachLoop) :
    (∀ a, (g.commented.children (g.lift g.commented site)).head? = some a → a.id ≠ g.site) ∧
      ∀ a, (g.commented.children (g.lift g.commented site)).getLast? = some a → a.id ≠ g.site := by
  have ht := twin hg
  have hloop := fun {a} (ha : a ∈ g.commented.children (g.lift g.commented site))
      (hid : a.id = g.site) => hc.loop _ (parent?_eq hg (ht.has_lift hsite) ha hid)
      ((ht.same_lift hsite).kind_eq.trans hkind)
  rw [← ht.linked'.map_id_children (ht.has_lift hsite)] at hloop
  constructor
  · intro a ha hid
    refine (hloop (List.mem_of_mem_head? ha) hid).1 ?_
    rw [List.head?_map, ha, Option.map_some, hid]
  · intro a ha hid
    refine (hloop (List.mem_of_getLast? ha) hid).2 ?_
    rw [List.getLast?_map, ha, Option.map_some, hid]

theorem loop?_lift (name : String) {site : Node} (hsite : g.plain.Has site)
    (hkind : site.kind = .foreachLoop) :
    g.commented.loop? name (g.lift g.commented site) =
      (g.plain.loop? name site).map (Binding.map (g.lift g.commented)) := by
  have ht := twin hg
  have hpadded := ht.children hsite
  obtain ⟨hhead, hlast⟩ := loop_ends hg hc hsite hkind
  have htail : ∀ a, (g.commented.children (g.lift g.commented site)).tail.getLast? = some a →
      a.id ≠ g.site := by
    intro a ha
    rw [List.getLast?_tail] at ha
    split at ha
    · cases ha
    · exact hlast a ha
  have hany : (g.commented.children (g.lift g.commented site)).tail.dropLast.any
        (g.commented.mentions name) =
      (g.plain.children site).tail.dropLast.any (g.plain.mentions name) := by
    refine ((hpadded.tail hhead).dropLast htail).any_eq
      (fun c hhas hid => mentions_comment hg name hhas hid) fun m hm => ?_
    have hm := List.mem_of_mem_tail (List.dropLast_subset _ hm)
    exact mentions_lift hg hc name (ht.linked.has_of_mem_children hm)
  rw [loop?_eq, loop?_eq, hany, hpadded.head?_map hhead, Option.bind_map, Option.map_bind]
  refine Option.bind_congr fun source _ => ?_
  rw [Function.comp_apply, Function.comp_apply]
  split
  · rw [Option.map_some, Binding.map]
  · rw [Option.map_none]

/-- A site makes the same binding with the comment. -/
theorem binding?_lift (name : String) {cursor site : Node} (hcursor : g.plain.Has cursor)
    (hsite : g.plain.Has site) :
    g.commented.binding? (g.lift g.commented cursor) name (g.lift g.commented site) =
      (g.plain.binding? cursor name site).map (Binding.map (g.lift g.commented)) := by
  unfold SourceFile.binding?
  rw [((twin hg).same_lift hsite).kind_eq]
  cases hkind : site.kind with
  | assignment => exact assignment?_lift hg hc name hcursor hsite
  | parameter =>
    dsimp only
    rw [value_lift hg hc hsite (by rw [hkind]; decide)]
    split
    · rw [Option.map_some, Binding.map]
    · rw [Option.map_none]
  | foreachLoop => exact loop?_lift hg hc name hsite hkind
  | _ => rw [Option.map_none]

/-! ## All bindings -/

theorem bindingsIn_lift (name : String) {cursor boundary : Node} (hcursor : g.plain.Has cursor)
    (hboundary : g.plain.Has boundary) :
    g.commented.bindingsIn name (g.lift g.commented cursor) (g.lift g.commented boundary) =
      (g.plain.bindingsIn name cursor boundary).map (Binding.map (g.lift g.commented)) := by
  have ht := twin hg
  have hnodes : g.Padded g.commented (g.plain.nodesBefore cursor boundary)
      (g.commented.nodesBefore (g.lift g.commented cursor) (g.lift g.commented boundary)) := by
    unfold SourceFile.nodesBefore
    refine ht.preorder (fun m hm => ?_) hboundary
    rw [(ht.same_lift hm).start_eq, (ht.same_lift hcursor).start_eq, (ht.same_lift hm).kind_eq,
      (ht.same_lift hm).id_eq, (ht.same_lift hboundary).id_eq]
    have hid : (g.up m.id == g.up boundary.id) = (m.id == boundary.id) := by
      rw [Bool.eq_iff_iff, beq_iff_eq, beq_iff_eq, up_inj]
    simp only [start_lt_start_iff, hid]
  unfold SourceFile.bindingsIn
  rw [List.map_filterMap]
  refine hnodes.reverse.filterMap_eq (fun c hhas hid => ?_) fun m hm => ?_
  · unfold SourceFile.binding?
    rw [(ht.isComment hhas hid).kind_eq]
  · have hm := ht.linked.stable_has.preorder hboundary m (List.mem_reverse.1 hm)
    exact binding?_lift hg hc name hcursor hm

theorem captures_lift (name : String) {function : Node} (hf : g.plain.Has function) :
    g.commented.captures name (g.lift g.commented function) = g.plain.captures name function := by
  have ht := twin hg
  unfold SourceFile.captures
  rw [(ht.same_lift hf).kind_eq]
  cases function.kind with
  | arrowFunction =>
    dsimp only
    rw [ht.filter_children hf (q := fun c => decide (c.kind = .parameters))
      (fun c h => by rw [h.kind_eq]; decide) fun m hm => by rw [(ht.same_child hm).kind_eq]]
    have hlists : g.Padded g.commented
        (((g.plain.children function).filter (fun c => decide (c.kind = .parameters))).flatMap
          g.plain.children)
        ((((g.plain.children function).filter (fun c => decide (c.kind = .parameters))).map
          (g.lift g.commented)).flatMap g.commented.children) := by
      have hin : ∀ m ∈ (g.plain.children function).filter (fun c => decide (c.kind = .parameters)),
          g.plain.Has m := fun m hm => ht.linked.has_of_mem_children (List.mem_filter.1 hm).1
      refine (ht.map_lift_has hin).flatMap (fun a _ b hb => ht.linked'.has_of_mem_children hb)
        (fun c hhas hid b hb => ?_) fun m hm => ht.children (hin m hm)
      unfold SourceFile.children at hb
      rw [(ht.isComment hhas hid).children_eq] at hb
      cases hb
    rw [hlists.any_eq (q := fun p => decide (p.kind = .parameter) && p.value == some name)]
    · intro c hhas hid
      rw [(ht.isComment hhas hid).kind_eq]
      rfl
    · intro m hm
      obtain ⟨list, hlist, hm⟩ := List.mem_flatMap.1 hm
      have hhas := ht.linked.has_of_mem_children hm
      rw [(ht.same_lift hhas).kind_eq]
      by_cases hkind : m.kind = .parameter
      · rw [value_lift hg hc hhas (by rw [hkind]; decide)]
      · simp [hkind]
  | closure =>
    dsimp only
    rw [ht.filter_children hf (q := fun c => c.form == "anonymous_function_use_clause")
      (fun c h => by rw [h.form_eq]; decide) fun m hm => by rw [(ht.same_child hm).form_eq]]
    have hin := fun m (hm : m ∈ (g.plain.children function).filter
        (fun c => c.form == "anonymous_function_use_clause")) =>
      ht.linked.has_of_mem_children (List.mem_filter.1 hm).1
    exact (ht.map_lift_has hin).any_eq (fun c hhas hid => mentions_comment hg name hhas hid)
      fun m hm => mentions_lift hg hc name (hin m hm)
  | _ => rfl

theorem bindingsThrough_lift (name : String) {cursor : Node} (hcursor : g.plain.Has cursor)
    {functions : List Node} (hf : ∀ a ∈ functions, g.plain.Has a) :
    g.commented.bindingsThrough name (g.lift g.commented cursor)
        (functions.map (g.lift g.commented)) =
      (g.plain.bindingsThrough name cursor functions).map (Binding.map (g.lift g.commented)) := by
  have ht := twin hg
  induction functions generalizing cursor with
  | nil =>
    rw [List.map_nil]
    unfold SourceFile.bindingsThrough
    rw [ht.root?_eq]
    cases hroot : g.plain.root? with
    | none => rw [Option.map_none, List.map_nil]
    | some root => exact bindingsIn_lift hg hc name hcursor (ht.linked.has hroot)
  | cons function outer ih =>
    have hhas := hf function List.mem_cons_self
    rw [List.map_cons]
    unfold SourceFile.bindingsThrough
    rw [bindingsIn_lift hg hc name hcursor hhas, captures_lift hg hc name hhas, List.map_append,
      ih hhas fun a ha => hf a (List.mem_cons_of_mem _ ha)]
    split
    · rfl
    · rw [List.map_nil]

/-- A variable has the same bindings with the comment. -/
theorem bindings_lift (name : String) {n : Node} (hn : g.plain.Has n) :
    g.commented.bindings (g.lift g.commented n) name =
      (g.plain.bindings n name).map (Binding.map (g.lift g.commented)) := by
  have ht := twin hg
  unfold SourceFile.bindings
  rw [ht.enclosingFunctions_lift hn]
  refine bindingsThrough_lift hg hc _ hn fun a ha => ?_
  exact ht.has_ancestors hn a (List.mem_filter.1 ha).1

end Insertion

end PhpAudit
