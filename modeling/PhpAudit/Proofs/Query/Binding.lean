import Mathlib.Data.List.Nodup
import PhpAudit.Proofs.Tree.Order
import PhpAudit.Query.Binding

/-!
# The bindings of a variable, exactly

`Collects` says which bindings a variable has at a node, without a walk: function by function outwards,
those made by the nodes of the function that start before the cursor and stand in no function of their
own, by falling ids. A function that captures the variable is the next cursor. In a file in order
`bindings` is the one list of this kind (`collects_iff_bindings`), and its ids fall from function to
function too, since a function that is left behind starts after every site that is still to come.
-/

namespace PhpAudit.SourceFile

variable {f : SourceFile} {x : String} {cursor : Node}

/-! ## The function around a node -/

/-- `a` is around `n`: `n` hangs from one of its children. -/
def Around (f : SourceFile) : Node → Node → Prop :=
  Relation.TransGen fun a n => n ∈ f.children a

/-- The nearest function around a node. -/
structure Innermost (f : SourceFile) (function n : Node) : Prop where
  has : f.Has function
  is_function : function.kind.isFunctionLike = true
  around : f.Around function n
  nearest : ∀ a, f.Has a → a.kind.isFunctionLike = true → f.Around a n → f.Below a function

/-- The nodes around a node are its parent and those that the parent is below. -/
theorem Linked.around_iff (hf : f.Linked) {a n : Node} (ha : f.Has a) (hn : f.Has n) :
    f.Around a n ↔ ∃ p, f.parent? n = some p ∧ f.Below a p := by
  unfold Around
  rw [Relation.TransGen.tail'_iff]
  constructor
  · rintro ⟨p, hp, hc⟩
    exact ⟨p, (hf.parent?_eq_some_iff hn).2 ⟨hf.has_of_below ha hp, hc⟩, hp⟩
  · rintro ⟨p, hp, hb⟩
    exact ⟨p, hb, ((hf.parent?_eq_some_iff hn).1 hp).2⟩

theorem Innermost.lt (hf : f.Linked) {function n : Node} (h : f.Innermost function n) (hn : f.Has n) :
    function.id < n.id := by
  obtain ⟨p, hp, hb⟩ := (hf.around_iff h.has hn).1 h.around
  exact Nat.lt_of_le_of_lt (hf.le_of_below h.has hb) (hf.parent?_lt hn hp)

theorem Innermost.unique (hf : f.Linked) {a b n : Node} (ha : f.Innermost a n)
    (hb : f.Innermost b n) : a = b := by
  have hab := hf.le_of_below ha.has (hb.nearest a ha.has ha.is_function ha.around)
  have hba := hf.le_of_below hb.has (ha.nearest b hb.has hb.is_function hb.around)
  exact ha.has.ext hb.has (Nat.le_antisymm hab hba)

/-- A node has the functions around it that its parent has, and the parent itself if it is one. -/
theorem Linked.enclosingFunctions_eq (hf : f.Linked) {n p : Node} (hn : f.Has n)
    (hp : f.parent? n = some p) :
    f.enclosingFunctions n =
      if p.kind.isFunctionLike then p :: f.enclosingFunctions p else f.enclosingFunctions p := by
  unfold enclosingFunctions
  rw [hf.ancestors_eq hn, hp, Option.map_some, Option.getD_some, List.filter_cons]

theorem Linked.enclosingFunctions_of_root (hf : f.Linked) {n : Node} (hn : f.Has n)
    (hp : f.parent? n = none) : f.enclosingFunctions n = [] := by
  unfold enclosingFunctions
  rw [hf.ancestors_eq hn, hp]
  rfl

theorem Linked.not_innermost_of_nil (hf : f.Linked) {n : Node} (hn : f.Has n)
    (h : f.enclosingFunctions n = []) (function : Node) : ¬ f.Innermost function n := by
  revert h
  refine hf.rootInduction (P := fun n => f.enclosingFunctions n = [] → ¬ f.Innermost function n) ?_ n hn
  intro n hn ih h hin
  obtain ⟨p, hp, hb⟩ := (hf.around_iff hin.has hn).1 hin.around
  rw [hf.enclosingFunctions_eq hn hp] at h
  split at h
  · cases h
  · next hkind =>
    have hphas := hf.has_of_parent? hp
    rcases Relation.ReflTransGen.cases_tail hb with rfl | hstep
    · exact hkind hin.is_function
    · refine ih p hp h ⟨hin.has, hin.is_function, Relation.TransGen.tail'_iff.2 hstep, ?_⟩
      intro a ha hfun haround
      exact hin.nearest a ha hfun (.tail haround ((hf.parent?_eq_some_iff hn).1 hp).2)

/-- The first function around a node is the nearest, and the others are those around it. -/
theorem Linked.innermost_of_cons (hf : f.Linked) {n function : Node} {outer : List Node}
    (hn : f.Has n) (h : f.enclosingFunctions n = function :: outer) :
    f.Innermost function n ∧ f.enclosingFunctions function = outer := by
  revert h
  refine hf.rootInduction (P := fun n => f.enclosingFunctions n = function :: outer →
    f.Innermost function n ∧ f.enclosingFunctions function = outer) ?_ n hn
  intro n hn ih h
  cases hp : f.parent? n with
  | none =>
    rw [hf.enclosingFunctions_of_root hn hp] at h
    cases h
  | some p =>
    have hphas := hf.has_of_parent? hp
    have hchild := ((hf.parent?_eq_some_iff hn).1 hp).2
    have above : ∀ a, f.Has a → f.Around a n → f.Below a p := by
      intro a ha haround
      obtain ⟨q, hq, hb⟩ := (hf.around_iff ha hn).1 haround
      obtain rfl := Option.some.inj (hp.symm.trans hq)
      exact hb
    rw [hf.enclosingFunctions_eq hn hp] at h
    split at h
    · next hkind =>
      obtain ⟨rfl, rfl⟩ := List.cons.inj h
      exact ⟨⟨hphas, hkind, .single hchild, fun a ha _ => above a ha⟩, rfl⟩
    · next hkind =>
      obtain ⟨hin, houter⟩ := ih p hp h
      refine ⟨⟨hin.has, hin.is_function, .tail hin.around hchild, fun a ha hfun haround => ?_⟩, houter⟩
      rcases Relation.ReflTransGen.cases_tail (above a ha haround) with rfl | hstep
      · exact absurd hfun hkind
      · exact hin.nearest a ha hfun (Relation.TransGen.tail'_iff.2 hstep)

/-! ## Sites -/

/-- A variable of the given name stands at or below the node. -/
def Holds (f : SourceFile) (x : String) (n : Node) : Prop :=
  ∃ v, f.Below n v ∧ v.kind = .var ∧ v.value = some x

/-- The node hangs from `boundary` and stands in no function of its own. -/
def Within (f : SourceFile) : Node → Node → Prop :=
  Relation.ReflTransGen fun a b => b ∈ f.children a ∧ b.kind.isFunctionLike = false

/-- What a node binds the variable to, as seen from `cursor`. -/
inductive Binds (f : SourceFile) (x : String) (cursor : Node) : Node → Binding → Prop
  /-- An assignment that the cursor is not in, to the variable or to a pattern that holds it. -/
  | assignment {site target : Node} (hkind : site.kind = .assignment)
      (hout : site.span.contains cursor.span.start = false)
      (hleft : f.child? site "left" = some target)
      (htarget : target.kind = .var ∧ target.value = some x ∨
        target.kind ≠ .var ∧ target.form ∈ patternForms ∧ f.Holds x target) :
      Binds f x cursor site (.assigned site (f.child? site "right"))
  | parameter {site : Node} (hkind : site.kind = .parameter) (hvalue : site.value = some x) :
      Binds f x cursor site (.received site)
  /-- A loop with the variable between what it runs over and its body. -/
  | loop {site source part body : Node} {head : List Node} (hkind : site.kind = .foreachLoop)
      (hchildren : f.children site = source :: (head ++ [body])) (hpart : part ∈ head)
      (hx : f.Holds x part) : Binds f x cursor site (.looped site source)

/-- The function reads the variable from the code around it. -/
inductive Captures (f : SourceFile) (x : String) (function : Node) : Prop
  /-- An arrow function without a parameter of the name. -/
  | arrow (hkind : function.kind = .arrowFunction)
      (hfree : ∀ list ∈ f.children function, list.kind = .parameters →
        ∀ p ∈ f.children list, p.kind = .parameter → p.value ≠ some x)
  /-- A closure with the variable on its `use` list. -/
  | closure {clause : Node} (hkind : function.kind = .closure) (hclause : clause ∈ f.children function)
      (hform : clause.form = "anonymous_function_use_clause") (hx : f.Holds x clause)

theorem Linked.mentions_iff (hf : f.Linked) {n : Node} (hn : f.Has n) :
    f.mentions x n = true ↔ f.Holds x n := by
  unfold mentions Holds Node.isVar
  simp only [List.any_eq_true, Bool.and_eq_true, decide_eq_true_eq, beq_iff_eq,
    hf.mem_descendants hn]

theorem Binds.site_eq {site : Node} {b : Binding} (h : f.Binds x cursor site b) : b.site = site := by
  cases h <;> rfl

theorem Linked.binds_iff (hf : f.Linked) {target : Node} (ht : f.Has target) :
    f.binds x target = true ↔ target.kind = .var ∧ target.value = some x ∨
      target.kind ≠ .var ∧ target.form ∈ patternForms ∧ f.Holds x target := by
  unfold binds
  by_cases hkind : target.kind = .var
  · simp [hkind]
  · rw [if_neg hkind, Bool.and_eq_true, List.contains_iff_mem, hf.mentions_iff ht]
    simp [hkind]

theorem Linked.assignment?_iff (hf : f.Linked) {site : Node} {b : Binding}
    (hkind : site.kind = .assignment) :
    f.assignment? cursor x site = some b ↔ f.Binds x cursor site b := by
  unfold assignment?
  constructor
  · intro h
    split at h
    · cases h
    · next hout =>
      obtain ⟨target, hleft, h⟩ := Option.bind_eq_some_iff.1 h
      have ht := hf.has_of_mem_children (mem_children_of_child? hleft)
      split at h
      · next hbinds =>
        obtain rfl := Option.some.inj h
        exact .assignment hkind (Bool.eq_false_iff.2 hout) hleft ((hf.binds_iff ht).1 hbinds)
      · cases h
  · intro h
    cases h with
    | assignment _ hout hleft htarget =>
      have ht := hf.has_of_mem_children (mem_children_of_child? hleft)
      rw [hout, if_neg Bool.false_ne_true, hleft, Option.bind_some,
        if_pos ((hf.binds_iff ht).2 htarget)]
    | parameter hparameter _ => rw [hkind] at hparameter; cases hparameter
    | loop hloop _ _ _ => rw [hkind] at hloop; cases hloop

theorem Linked.loop?_iff (hf : f.Linked) {site : Node} {b : Binding}
    (hkind : site.kind = .foreachLoop) :
    f.loop? x site = some b ↔ f.Binds x cursor site b := by
  unfold loop?
  constructor
  · intro h
    split at h
    · cases h
    · next source rest hchildren =>
      split at h
      · next hany =>
        obtain rfl := Option.some.inj h
        obtain ⟨part, hpart, hx⟩ := List.any_eq_true.1 hany
        have hne : rest ≠ [] := by rintro rfl; cases hpart
        have hhas : f.Has part := hf.has_of_mem_children (n := site) (by
          rw [hchildren]
          exact List.mem_cons_of_mem _ ((List.dropLast_sublist rest).subset hpart))
        have hsplit : f.children site = source :: (rest.dropLast ++ [rest.getLast hne]) := by
          rw [hchildren, List.dropLast_append_getLast]
        exact .loop hkind hsplit hpart ((hf.mentions_iff hhas).1 hx)
      · cases h
  · intro h
    cases h with
    | assignment hassignment _ _ _ => rw [hkind] at hassignment; cases hassignment
    | parameter hparameter _ => rw [hkind] at hparameter; cases hparameter
    | @loop source part body head _ hchildren hpart hx =>
      have hhas : f.Has part := hf.has_of_mem_children (n := site) (by rw [hchildren]; simp [hpart])
      rw [hchildren]
      simp only [List.dropLast_concat]
      rw [if_pos (List.any_eq_true.2 ⟨part, hpart, (hf.mentions_iff hhas).2 hx⟩)]

theorem Linked.binding?_iff (hf : f.Linked) {site : Node} {b : Binding} :
    f.binding? cursor x site = some b ↔ f.Binds x cursor site b := by
  unfold binding?
  split
  · next hkind => exact hf.assignment?_iff hkind
  · next hkind =>
    constructor
    · intro h
      split at h
      · next hvalue =>
        obtain rfl := Option.some.inj h
        exact .parameter hkind (by simpa using hvalue)
      · cases h
    · intro h
      cases h with
      | assignment hassignment _ _ _ => rw [hkind] at hassignment; cases hassignment
      | parameter _ hvalue => rw [hvalue, if_pos (by simp)]
      | loop hloop _ _ _ => rw [hkind] at hloop; cases hloop
  · next hkind => exact hf.loop?_iff hkind
  · next hassignment hparameter hloop =>
    refine ⟨fun h => absurd h (by simp), fun h => ?_⟩
    cases h with
    | assignment hkind _ _ _ => exact absurd hkind hassignment
    | parameter hkind _ => exact absurd hkind hparameter
    | loop hkind _ _ _ => exact absurd hkind hloop

theorem Linked.captures_iff (hf : f.Linked) {function : Node} :
    f.captures x function = true ↔ f.Captures x function := by
  unfold captures
  split
  · next hkind =>
    simp only [Bool.not_eq_true', List.any_eq_false, List.mem_flatMap, List.mem_filter,
      decide_eq_true_eq, Bool.and_eq_true, beq_iff_eq]
    constructor
    · intro h
      exact .arrow hkind fun list hlist hlistKind p hp hparameter hvalue =>
        h p ⟨list, ⟨hlist, hlistKind⟩, hp⟩ ⟨hparameter, hvalue⟩
    · rintro (⟨-, hfree⟩ | ⟨hclosure, -, -, -⟩) p ⟨list, ⟨hlist, hlistKind⟩, hp⟩ ⟨hparameter, hvalue⟩
      · exact hfree list hlist hlistKind p hp hparameter hvalue
      · rw [hkind] at hclosure; cases hclosure
  · next hkind =>
    simp only [List.any_eq_true, List.mem_filter, beq_iff_eq]
    constructor
    · rintro ⟨clause, ⟨hclause, hform⟩, hx⟩
      exact .closure hkind hclause hform ((hf.mentions_iff (hf.has_of_mem_children hclause)).1 hx)
    · rintro (⟨harrow, -⟩ | ⟨-, hclause, hform, hx⟩)
      · rw [hkind] at harrow; cases harrow
      · exact ⟨_, ⟨hclause, hform⟩, (hf.mentions_iff (hf.has_of_mem_children hclause)).2 hx⟩
  · next harrow hclosure =>
    refine ⟨fun h => absurd h Bool.false_ne_true, ?_⟩
    rintro (⟨hkind, -⟩ | ⟨hkind, -, -, -⟩)
    · exact absurd hkind harrow
    · exact absurd hkind hclosure

/-! ## The bindings in one function -/

/-- The bindings that the nodes of `boundary` before `cursor` make, by falling ids. -/
structure Block (f : SourceFile) (x : String) (cursor boundary : Node) (block : List Binding) :
    Prop where
  mem_iff : ∀ b, b ∈ block ↔ ∃ site, f.Within boundary site ∧
    site.span.start < cursor.span.start ∧ f.Binds x cursor site b
  falls : block.Pairwise fun a b => b.site.id < a.site.id

theorem Within.below {n m : Node} (h : f.Within n m) : f.Below n m :=
  Relation.ReflTransGen.mono (fun _ _ h => h.1) _ _ h

/-- The walk through a function visits the nodes that stand in no function of their own and start before
the cursor: a node on the way to one of them starts no later than it. -/
theorem InOrder.mem_nodesBefore (hf : f.InOrder) {boundary m : Node} (hb : f.Has boundary) :
    m ∈ f.nodesBefore cursor boundary ↔
      f.Within boundary m ∧ m.span.start < cursor.span.start := by
  unfold nodesBefore
  rw [hf.mem_preorder hb]
  simp only [Bool.and_eq_true, decide_eq_true_eq, Bool.or_eq_true, beq_iff_eq, Bool.not_eq_true']
  constructor
  · rintro ⟨⟨hstart, -⟩, hpath⟩
    induction hpath with
    | refl => exact ⟨.refl, hstart⟩
    | tail _ hstep ih =>
      obtain ⟨hchild, hlt, hkind⟩ := hstep
      have hbelow := ih.1.below
      have hhas := hf.has_of_below hb hbelow
      have := hf.le_of_below hb hbelow
      have := hf.child_lt hhas hchild
      exact ⟨.tail ih.1 ⟨hchild, hkind.resolve_left (by omega)⟩, hlt⟩
  · rintro ⟨hwithin, hlt⟩
    induction hwithin with
    | refl => exact ⟨⟨hlt, by simp⟩, .refl⟩
    | tail hwithin hstep ih =>
      have hhas := hf.has_of_below hb (Within.below hwithin)
      have hle := hf.start_le hhas (hf.has_of_mem_children hstep.1)
        (Nat.le_of_lt (hf.child_lt hhas hstep.1))
      obtain ⟨hfirst, hpath⟩ := ih (Nat.lt_of_le_of_lt hle hlt)
      exact ⟨hfirst, .tail hpath ⟨hstep.1, hlt, .inr hstep.2⟩⟩

theorem InOrder.block_bindingsIn (hf : f.InOrder) {boundary : Node} (hb : f.Has boundary) :
    f.Block x cursor boundary (f.bindingsIn x cursor boundary) := by
  refine ⟨fun b => ?_, ?_⟩
  · unfold bindingsIn
    simp only [List.mem_filterMap, List.mem_reverse, hf.mem_nodesBefore hb, hf.binding?_iff,
      and_assoc]
  · unfold bindingsIn
    rw [List.pairwise_filterMap, List.pairwise_reverse]
    refine (hf.preorder_pairwise _ hb).imp fun {n m} hlt a ha b hbind => ?_
    rw [(hf.binding?_iff.1 ha).site_eq, (hf.binding?_iff.1 hbind).site_eq]
    exact hlt

theorem nodup_of_falls {bs : List Binding} (h : bs.Pairwise fun a b => b.site.id < a.site.id) :
    (bs.map (·.site)).Nodup := by
  rw [List.Nodup, List.pairwise_map]
  refine h.imp fun {a b} hlt heq => ?_
  rw [heq] at hlt
  exact Nat.lt_irrefl _ hlt

theorem Block.unique {boundary : Node} {block block' : List Binding}
    (h : f.Block x cursor boundary block) (h' : f.Block x cursor boundary block') : block = block' := by
  have hperm : block.Perm block' := by
    have hnodup : block.Nodup := List.Nodup.of_map _ (nodup_of_falls h.falls)
    have hnodup' : block'.Nodup := List.Nodup.of_map _ (nodup_of_falls h'.falls)
    refine (List.perm_ext_iff_of_nodup hnodup hnodup').2 fun b => ?_
    rw [h.mem_iff, h'.mem_iff]
  exact hperm.eq_of_pairwise (fun a b _ _ hab hba => absurd hab (Nat.lt_asymm hba)) h.falls h'.falls

/-! ## From function to function -/

/-- The bindings of a variable from a cursor outwards. -/
inductive Collects (f : SourceFile) (x : String) : Node → List Binding → Prop
  /-- Outside of functions the whole file is searched. -/
  | file {cursor root : Node} {block : List Binding}
      (hnone : ∀ function, ¬ f.Innermost function cursor) (hroot : f.root? = some root)
      (hblock : f.Block x cursor root block) : Collects f x cursor block
  /-- A function that does not capture the variable is searched last. -/
  | closed {cursor function : Node} {block : List Binding} (hin : f.Innermost function cursor)
      (hblock : f.Block x cursor function block) (hcaptures : ¬ f.Captures x function) :
      Collects f x cursor block
  /-- A function that captures it is the cursor of what follows. -/
  | captured {cursor function : Node} {block rest : List Binding}
      (hin : f.Innermost function cursor) (hblock : f.Block x cursor function block)
      (hcaptures : f.Captures x function) (hrest : Collects f x function rest) :
      Collects f x cursor (block ++ rest)

theorem InOrder.collects_bindingsThrough (hf : f.InOrder) {functions : List Node}
    (hcursor : f.Has cursor) (hfunctions : f.enclosingFunctions cursor = functions) :
    f.Collects x cursor (f.bindingsThrough x cursor functions) := by
  induction functions generalizing cursor with
  | nil =>
    obtain ⟨root, hroot⟩ := Option.ne_none_iff_exists'.1
      (mt node?_eq_none_iff.1 (Nat.not_le.2 (Nat.zero_lt_of_lt hcursor.lt_size)))
    have hroot : f.root? = some root := hroot
    unfold bindingsThrough
    rw [hroot]
    exact .file (hf.not_innermost_of_nil hcursor hfunctions) hroot
      (hf.block_bindingsIn (hf.has hroot))
  | cons function outer ih =>
    obtain ⟨hin, houter⟩ := hf.innermost_of_cons hcursor hfunctions
    have hblock : f.Block x cursor function (f.bindingsIn x cursor function) :=
      hf.block_bindingsIn hin.has
    unfold bindingsThrough
    split
    · next hcaptures => exact .captured hin hblock (hf.captures_iff.1 hcaptures) (ih hin.has houter)
    · next hcaptures =>
      rw [List.append_nil]
      exact .closed hin hblock (mt hf.captures_iff.2 hcaptures)

theorem Collects.unique (hf : f.Linked) {bs bs' : List Binding} (h : f.Collects x cursor bs)
    (h' : f.Collects x cursor bs') : bs = bs' := by
  induction h generalizing bs' with
  | file hnone hroot hblock =>
    cases h' with
    | file _ hroot' hblock' =>
      obtain rfl := Option.some.inj (hroot.symm.trans hroot')
      exact hblock.unique hblock'
    | closed hin' _ _ => exact absurd hin' (hnone _)
    | captured hin' _ _ _ => exact absurd hin' (hnone _)
  | closed hin hblock hcaptures =>
    cases h' with
    | file hnone' _ _ => exact absurd hin (hnone' _)
    | closed hin' hblock' _ =>
      obtain rfl := hin.unique hf hin'
      exact hblock.unique hblock'
    | captured hin' _ hcaptures' _ =>
      obtain rfl := hin.unique hf hin'
      exact absurd hcaptures' hcaptures
  | captured hin hblock hcaptures _ ih =>
    cases h' with
    | file hnone' _ _ => exact absurd hin (hnone' _)
    | closed hin' _ hcaptures' =>
      obtain rfl := hin.unique hf hin'
      exact absurd hcaptures hcaptures'
    | captured hin' hblock' _ hrest' =>
      obtain rfl := hin.unique hf hin'
      rw [hblock.unique hblock', ih hrest']

/-- A binding is made in front of the cursor, and one from further outside in front of the function. -/
theorem Collects.site_lt (hf : f.InOrder) {bs : List Binding} (h : f.Collects x cursor bs)
    (hcursor : f.Has cursor) : ∀ b ∈ bs, b.site.id < cursor.id := by
  have inside : ∀ {cursor boundary block}, f.Has cursor → f.Has boundary →
      f.Block x cursor boundary block → ∀ b ∈ block, b.site.id < cursor.id := by
    intro cursor boundary block hcursor hb hblock b hmem
    obtain ⟨site, hwithin, hlt, hbinds⟩ := (hblock.mem_iff b).1 hmem
    rw [hbinds.site_eq]
    by_contra hge
    have := hf.start_le hcursor (hf.has_of_below hb hwithin.below) (Nat.le_of_not_lt hge)
    omega
  induction h with
  | file _ hroot hblock => exact inside hcursor (hf.has hroot) hblock
  | closed hin hblock _ => exact inside hcursor hin.has hblock
  | captured hin hblock _ _ ih =>
    intro b hmem
    rcases List.mem_append.1 hmem with hmem | hmem
    · exact inside hcursor hin.has hblock b hmem
    · exact Nat.lt_trans (ih hin.has b hmem) (hin.lt hf.toLinked hcursor)

theorem Collects.falls (hf : f.InOrder) {bs : List Binding} (h : f.Collects x cursor bs) :
    bs.Pairwise fun a b => b.site.id < a.site.id := by
  induction h with
  | file _ _ hblock => exact hblock.falls
  | closed _ hblock _ => exact hblock.falls
  | captured hin hblock _ hrest ih =>
    refine List.pairwise_append.2 ⟨hblock.falls, ih, fun a ha b hb => ?_⟩
    -- the sites of a function stand behind it, those further outside in front of it
    obtain ⟨site, hwithin, -, hbinds⟩ := (hblock.mem_iff a).1 ha
    rw [hbinds.site_eq]
    exact Nat.lt_of_lt_of_le (hrest.site_lt hf hin.has b hb) (hf.le_of_below hin.has hwithin.below)

/-- The bindings of a variable at a node of a parsed file are those that `Collects` describes, in that
order. Their ids fall, and no site occurs twice. -/
theorem collects_iff_bindings {g : Grammar} (hg : g.InOrder) {path source : String}
    (hparse : parse g path source = .ok f) {v : Node} (hv : f.Has v) (name : String) :
    (∀ bs, f.Collects (Text.stripStart '$' name) v bs ↔ bs = f.bindings v name) ∧
      (f.bindings v name).Pairwise (fun a b => b.site.id < a.site.id) ∧
      ((f.bindings v name).map (·.site)).Nodup := by
  have hf := inOrder_of_parse hg hparse
  have hcollects : f.Collects (Text.stripStart '$' name) v (f.bindings v name) :=
    hf.collects_bindingsThrough hv rfl
  have hfalls := hcollects.falls hf
  refine ⟨fun bs => ⟨fun h => h.unique hf.toLinked hcollects, ?_⟩, hfalls,
    nodup_of_falls hfalls⟩
  rintro rfl
  exact hcollects

/-! ## A variable that two functions capture -/

/-- A pattern binds `$a`, a closure captures it, and a loop binds it again around an arrow function. -/
def captureSource : String :=
  "<?php [$a,$b]=$_GET;$f=function($c)use($a){foreach($c as $a)$g=fn()=>$a;};"

/-- The outline of `captureSource`. -/
def captureOutline : Outline :=
  [⟨0, "program", none, ⟨0, 74⟩⟩, ⟨1, "php_tag", none, ⟨0, 5⟩⟩,
    ⟨1, "expression_statement", none, ⟨6, 20⟩⟩, ⟨2, "assignment_expression", none, ⟨6, 19⟩⟩,
    ⟨3, "list_literal", some "left", ⟨6, 13⟩⟩, ⟨4, "variable_name", none, ⟨7, 9⟩⟩,
    ⟨5, "name", none, ⟨8, 9⟩⟩, ⟨4, "variable_name", none, ⟨10, 12⟩⟩, ⟨5, "name", none, ⟨11, 12⟩⟩,
    ⟨3, "variable_name", some "right", ⟨14, 19⟩⟩, ⟨4, "name", none, ⟨15, 19⟩⟩,
    ⟨1, "expression_statement", none, ⟨20, 74⟩⟩, ⟨2, "assignment_expression", none, ⟨20, 73⟩⟩,
    ⟨3, "variable_name", some "left", ⟨20, 22⟩⟩, ⟨4, "name", none, ⟨21, 22⟩⟩,
    ⟨3, "anonymous_function_creation_expression", some "right", ⟨23, 73⟩⟩,
    ⟨4, "formal_parameters", some "parameters", ⟨31, 35⟩⟩, ⟨5, "simple_parameter", none, ⟨32, 34⟩⟩,
    ⟨6, "variable_name", some "name", ⟨32, 34⟩⟩, ⟨7, "name", none, ⟨33, 34⟩⟩,
    ⟨4, "anonymous_function_use_clause", none, ⟨35, 42⟩⟩, ⟨5, "variable_name", none, ⟨39, 41⟩⟩,
    ⟨6, "name", none, ⟨40, 41⟩⟩, ⟨4, "compound_statement", some "body", ⟨42, 73⟩⟩,
    ⟨5, "foreach_statement", none, ⟨43, 72⟩⟩, ⟨6, "variable_name", none, ⟨51, 53⟩⟩,
    ⟨7, "name", none, ⟨52, 53⟩⟩, ⟨6, "variable_name", none, ⟨57, 59⟩⟩, ⟨7, "name", none, ⟨58, 59⟩⟩,
    ⟨6, "expression_statement", some "body", ⟨60, 72⟩⟩,
    ⟨7, "assignment_expression", none, ⟨60, 71⟩⟩, ⟨8, "variable_name", some "left", ⟨60, 62⟩⟩,
    ⟨9, "name", none, ⟨61, 62⟩⟩, ⟨8, "arrow_function", some "right", ⟨63, 71⟩⟩,
    ⟨9, "formal_parameters", some "parameters", ⟨65, 67⟩⟩,
    ⟨9, "variable_name", some "body", ⟨69, 71⟩⟩, ⟨10, "name", none, ⟨70, 71⟩⟩]

/-- The grammar that knows this one text. -/
def captureGrammar : Grammar := fun source =>
  if source = captureSource then some captureOutline else none

/-- The file of `captureSource`. -/
def captureSample : SourceFile := .ofParts "capture.php" captureSource captureOutline

theorem inOrder_captureGrammar : captureGrammar.InOrder := by
  intro source rows hrows
  unfold captureGrammar at hrows
  split at hrows
  · rw [← Option.some.inj hrows]
    unfold Outline.InOrder
    decide +kernel
  · cases hrows

/-- In the arrow function `$a` is bound by the loop in the closure and by the pattern in front of it. -/
theorem collects_captureSample :
    ∃ v, parse captureGrammar "capture.php" captureSource = .ok captureSample ∧
      captureSample.node? 35 = some v ∧
      (captureSample.bindings v "$a").map (·.site.id) = [24, 3] ∧
      ∀ bs, captureSample.Collects "a" v bs ↔ bs = captureSample.bindings v "$a" := by
  have h : (captureSample.node? 35).map
      (fun v => (captureSample.bindings v "$a").map (·.site.id)) = some [24, 3] := by
    decide +kernel
  obtain ⟨v, hv, hsites⟩ := Option.map_eq_some_iff.1 h
  have hparse : parse captureGrammar "capture.php" captureSource = .ok captureSample := rfl
  have hhas : captureSample.Has v := (inOrder_of_parse inOrder_captureGrammar hparse).has hv
  exact ⟨v, hparse, hv, hsites, (collects_iff_bindings inOrder_captureGrammar hparse hhas "$a").1⟩

end PhpAudit.SourceFile
