import Mathlib.Data.List.Find
import PhpAudit.Proofs.Comment.Insertion
import PhpAudit.Proofs.Query.Steps

/-!
# Walks in a file with a comment

A file and its twin with the comment have the same tree, one leaf apart: `lift` takes each node to the same
node of the twin. A list of nodes in the twin is `Padded` if it is the lifted list up to the comment, and
whatever rejects comments sees no difference: look-ups of children, trails, ancestors and preorder walks
all commute with `lift`.
-/

namespace PhpAudit.Insertion

/-- The same node without and with the comment. -/
structure Same (g : Insertion) (n n' : Node) : Prop where
  id_eq : n'.id = g.up n.id
  parent_eq : n'.parent = n.parent.map g.up
  children_eq : n'.children.filter (· != g.site) = n.children.map g.up
  kind_eq : n'.kind = n.kind
  form_eq : n'.form = n.form
  field_eq : n'.field = n.field
  line_eq : n'.place.line = n.place.line
  start_eq : n'.span.start = g.start n.span.start
  stop_eq : n'.span.stop = g.stop n.span.stop

/-- A node that stands for the comment. -/
structure IsComment (g : Insertion) (c : Node) : Prop where
  id_eq : c.id = g.site
  kind_eq : c.kind = .comment
  form_eq : c.form = "comment"
  field_eq : c.field = none
  children_eq : c.children = []
  value_eq : c.value = none
  resolved_eq : c.resolved = none

/-- A file without and with the comment. -/
structure Twin (g : Insertion) (f f' : SourceFile) : Prop where
  linked : f.Linked
  linked' : f'.Linked
  size_eq : f'.size = f.size + 1
  site_pos : 0 < g.site
  site_le : g.site ≤ f.size
  source_eq : f.source = g.source
  source_eq' : f'.source = g.commentedSource
  range : ∀ {i n}, f.node? i = some n →
    (Text.slice? g.source n.span.start n.span.stop).isSome = true
  span_ne : ∀ {i n}, f.node? i = some n → n.span ≠ ⟨g.offset, g.offset⟩
  comment : ∃ c, f'.node? g.site = some c ∧ g.IsComment c
  same : ∀ {i n}, f.node? i = some n → ∃ n', f'.node? (g.up i) = some n' ∧ g.Same n n'

/-- The node of the twin that a node becomes. -/
def lift (g : Insertion) (f' : SourceFile) (n : Node) : Node := (f'.node? (g.up n.id)).getD n

variable {g : Insertion} {f f' : SourceFile}

/-! ## Ids -/

theorem up_ne_site (i : Nat) : g.up i ≠ g.site := by
  unfold up
  split <;> omega

theorem up_inj {i j : Nat} : g.up i = g.up j ↔ i = j := by
  unfold up
  constructor
  · intro h
    split at h <;> split at h <;> omega
  · rintro rfl
    rfl

theorem exists_up {i : Nat} (h : i ≠ g.site) : ∃ j, g.up j = i := by
  unfold up
  by_cases hlt : i < g.site
  · exact ⟨i, if_pos hlt⟩
  · exact ⟨i - 1, by rw [if_neg (by omega)]; omega⟩

theorem Twin.node?_up (ht : g.Twin f f') (i : Nat) :
    f'.node? (g.up i) = (f.node? i).map (g.lift f') := by
  cases hn : f.node? i with
  | some n =>
    obtain ⟨n', hn', -⟩ := ht.same hn
    rw [Option.map_some]
    unfold lift
    rw [ht.linked.id_eq hn, hn']
    rfl
  | none =>
    have hle := SourceFile.node?_eq_none_iff.1 hn
    have hsite := ht.site_le
    rw [Option.map_none, SourceFile.node?_eq_none_iff, ht.size_eq]
    unfold up
    rw [if_neg (by omega)]
    omega

theorem Twin.has_lift (ht : g.Twin f f') {n : Node} (hn : f.Has n) : f'.Has (g.lift f' n) := by
  refine ht.linked'.has (i := g.up n.id) ?_
  rw [ht.node?_up, show f.node? n.id = some n from hn]
  rfl

theorem Twin.same_lift (ht : g.Twin f f') {n : Node} (hn : f.Has n) : g.Same n (g.lift f' n) := by
  obtain ⟨n', hn', hsame⟩ := ht.same hn
  unfold lift
  rw [hn']
  exact hsame

theorem Twin.isComment (ht : g.Twin f f') {c : Node} (hc : f'.Has c) (hid : c.id = g.site) :
    g.IsComment c := by
  obtain ⟨c', hc', hcomment⟩ := ht.comment
  unfold SourceFile.Has at hc
  rw [hid, hc'] at hc
  exact Option.some.inj hc ▸ hcomment

theorem Twin.root?_eq (ht : g.Twin f f') : f'.root? = f.root?.map (g.lift f') := by
  have hup : g.up 0 = 0 := by
    unfold up
    rw [if_pos ht.site_pos]
  unfold SourceFile.root?
  rw [← ht.node?_up, hup]

theorem Twin.parent?_lift (ht : g.Twin f f') {n : Node} (hn : f.Has n) :
    f'.parent? (g.lift f' n) = (f.parent? n).map (g.lift f') := by
  unfold SourceFile.parent?
  rw [(ht.same_lift hn).parent_eq]
  cases n.parent with
  | none => rfl
  | some p => exact ht.node?_up p

/-! ## Lists up to the comment -/

/-- The second list is the first one in the twin, up to occurrences of the comment. -/
structure Padded (g : Insertion) (f' : SourceFile) (l l' : List Node) : Prop where
  has : ∀ a ∈ l', f'.Has a
  filter_eq : l'.filter (fun a => a.id != g.site) = l.map (g.lift f')

section Padded
variable {l l' m m' : List Node}

theorem Padded.nil : g.Padded f' [] [] := ⟨by simp, rfl⟩

theorem Padded.append (hl : g.Padded f' l l') (hm : g.Padded f' m m') :
    g.Padded f' (l ++ m) (l' ++ m') := by
  refine ⟨fun a ha => ?_, by rw [List.filter_append, hl.filter_eq, hm.filter_eq, List.map_append]⟩
  exact (List.mem_append.1 ha).elim (hl.has a) (hm.has a)

theorem Padded.reverse (hl : g.Padded f' l l') : g.Padded f' l.reverse l'.reverse :=
  ⟨fun a ha => hl.has a (List.mem_reverse.1 ha),
    by rw [List.filter_reverse, hl.filter_eq, List.map_reverse]⟩

variable {q q' : Node → Bool}

theorem Padded.filter (hl : g.Padded f' l l') (hq : ∀ a ∈ l, q' (g.lift f' a) = q a) :
    g.Padded f' (l.filter q) (l'.filter q') := by
  refine ⟨fun a ha => hl.has a (List.mem_filter.1 ha).1, ?_⟩
  rw [List.filter_comm, hl.filter_eq, List.filter_map]
  exact congrArg _ (List.filter_congr hq)

/-- Nothing that rejects the comment sees it. -/
theorem filter_of_rejects (hq : ∀ a ∈ l', a.id = g.site → q' a = false) :
    (l'.filter (fun a => a.id != g.site)).filter q' = l'.filter q' := by
  rw [List.filter_filter]
  refine List.filter_congr fun a ha => ?_
  by_cases hid : a.id = g.site
  · rw [hq a ha hid, Bool.false_and]
  · simp [hid]

theorem Padded.filter_map (hl : g.Padded f' l l')
    (hc : ∀ c, f'.Has c → c.id = g.site → q' c = false)
    (hq : ∀ a ∈ l, q' (g.lift f' a) = q a) : l'.filter q' = (l.filter q).map (g.lift f') := by
  rw [← filter_of_rejects fun a ha => hc a (hl.has a ha), hl.filter_eq, List.filter_map]
  exact congrArg _ (List.filter_congr hq)

theorem Padded.find?_map (hl : g.Padded f' l l')
    (hc : ∀ c, f'.Has c → c.id = g.site → q' c = false)
    (hq : ∀ a ∈ l, q' (g.lift f' a) = q a) : l'.find? q' = (l.find? q).map (g.lift f') := by
  rw [← List.head?_filter, ← List.head?_filter, hl.filter_map hc hq, List.head?_map]

theorem Padded.any_eq (hl : g.Padded f' l l')
    (hc : ∀ c, f'.Has c → c.id = g.site → q' c = false)
    (hq : ∀ a ∈ l, q' (g.lift f' a) = q a) : l'.any q' = l.any q := by
  rw [← List.isSome_find?, ← List.isSome_find?, hl.find?_map hc hq, Option.isSome_map]

theorem Padded.filterMap_eq {β : Type} (hl : g.Padded f' l l') {h h' : Node → Option β}
    (hc : ∀ c, f'.Has c → c.id = g.site → h' c = none)
    (hh : ∀ a ∈ l, h' (g.lift f' a) = h a) : l'.filterMap h' = l.filterMap h := by
  have hreject : l'.filterMap h' = (l'.filter (fun a => a.id != g.site)).filterMap h' := by
    rw [List.filterMap_filter]
    refine List.filterMap_congr fun a ha => ?_
    by_cases hid : a.id = g.site
    · simp [hid, hc a (hl.has a ha) hid]
    · simp [hid]
  rw [hreject, hl.filter_eq, List.filterMap_map]
  exact List.filterMap_congr fun a ha => hh a ha

theorem Padded.flatMap (hl : g.Padded f' l l') {h h' : Node → List Node}
    (hhas : ∀ a ∈ l', ∀ b ∈ h' a, f'.Has b)
    (hc : ∀ c, f'.Has c → c.id = g.site → ∀ b ∈ h' c, b.id = g.site)
    (hh : ∀ a ∈ l, g.Padded f' (h a) (h' (g.lift f' a))) :
    g.Padded f' (l.flatMap h) (l'.flatMap h') := by
  refine ⟨fun b hb => ?_, ?_⟩
  · obtain ⟨a, ha, hb⟩ := List.mem_flatMap.1 hb
    exact hhas a ha b hb
  · have hreject : (l'.flatMap h').filter (fun a => a.id != g.site) =
        (l'.filter (fun a => a.id != g.site)).flatMap
          fun a => (h' a).filter (fun a => a.id != g.site) := by
      have hall := hl.has
      clear hl hh hhas
      induction l' with
      | nil => rfl
      | cons a l' ih =>
        rw [List.flatMap_cons, List.filter_append, ih (fun b hb => hall b (List.mem_cons_of_mem _ hb)),
          List.filter_cons]
        by_cases hid : a.id = g.site
        · have hnil : (h' a).filter (fun a => a.id != g.site) = [] := by
            rw [List.filter_eq_nil_iff]
            intro b hb
            simp [hc a (hall a List.mem_cons_self) hid b hb]
          simp [hid, hnil]
        · simp [hid]
    rw [hreject, hl.filter_eq, List.flatMap_map, List.map_flatMap]
    exact List.flatMap_congr fun a ha => (hh a ha).filter_eq

/-- A list that does not start with the comment starts with the same node. -/
theorem Padded.head?_map (hl : g.Padded f' l l') (hne : ∀ a, l'.head? = some a → a.id ≠ g.site) :
    l'.head? = l.head?.map (g.lift f') := by
  rw [← List.head?_map, ← hl.filter_eq]
  cases l' with
  | nil => rfl
  | cons a l' =>
    have hid := hne a rfl
    rw [List.filter_cons, if_pos (by simpa using hid)]
    rfl

theorem Padded.getLast?_map (hl : g.Padded f' l l')
    (hne : ∀ a, l'.getLast? = some a → a.id ≠ g.site) :
    l'.getLast? = l.getLast?.map (g.lift f') := by
  rw [← List.head?_reverse] at hne ⊢
  rw [← List.head?_reverse]
  exact hl.reverse.head?_map hne

/-- A search that does not stop at the comment stops at the same node. -/
theorem Padded.find?_of_ne (hl : g.Padded f' l l') (hq : ∀ a ∈ l, q' (g.lift f' a) = q a)
    (hne : ∀ a, l'.find? q' = some a → a.id ≠ g.site) :
    l'.find? q' = (l.find? q).map (g.lift f') := by
  rw [← List.head?_filter] at hne ⊢
  rw [← List.head?_filter]
  exact (hl.filter hq).head?_map hne

theorem Padded.tail (hl : g.Padded f' l l') (hne : ∀ a, l'.head? = some a → a.id ≠ g.site) :
    g.Padded f' l.tail l'.tail := by
  refine ⟨fun a ha => hl.has a (List.mem_of_mem_tail ha), ?_⟩
  rw [List.map_tail, ← hl.filter_eq]
  cases l' with
  | nil => rfl
  | cons a l' =>
    have hid := hne a rfl
    rw [List.filter_cons, if_pos (by simpa using hid)]
    rfl

theorem Padded.dropLast (hl : g.Padded f' l l')
    (hne : ∀ a, l'.getLast? = some a → a.id ≠ g.site) : g.Padded f' l.dropLast l'.dropLast := by
  have htail := hl.reverse.tail fun a ha => hne a (by rwa [List.head?_reverse] at ha)
  have h := htail.reverse
  rw [List.tail_reverse, List.tail_reverse, List.reverse_reverse, List.reverse_reverse] at h
  exact h

end Padded

/-! ## Children -/

section Children
variable (ht : g.Twin f f') {n : Node} (hn : f.Has n)
include ht

theorem Twin.map_lift_has {l : List Node} (hl : ∀ a ∈ l, f.Has a) :
    g.Padded f' l (l.map (g.lift f')) := by
  refine ⟨fun a ha => ?_, List.filter_eq_self.2 fun a ha => ?_⟩
  · obtain ⟨b, hb, rfl⟩ := List.mem_map.1 ha
    exact ht.has_lift (hl b hb)
  · obtain ⟨b, hb, rfl⟩ := List.mem_map.1 ha
    rw [(ht.same_lift (hl b hb)).id_eq]
    simpa using up_ne_site b.id

theorem Twin.same_child {m : Node} (hm : m ∈ f.children n) : g.Same m (g.lift f' m) :=
  ht.same_lift (ht.linked.has_of_mem_children hm)

theorem Twin.filter_filterMap_node? (ids : List Nat) :
    (ids.filterMap f'.node?).filter (fun a => a.id != g.site) =
      (ids.filter (· != g.site)).filterMap f'.node? := by
  rw [List.filter_filterMap, List.filterMap_filter]
  refine List.filterMap_congr fun i _ => ?_
  cases ha : f'.node? i with
  | none => simp
  | some a =>
    rw [Option.filter_some, ht.linked'.id_eq ha]

include hn

theorem Twin.children : g.Padded f' (f.children n) (f'.children (g.lift f' n)) := by
  refine ⟨fun a ha => ht.linked'.has_of_mem_children ha, ?_⟩
  unfold SourceFile.children
  rw [ht.filter_filterMap_node?, (ht.same_lift hn).children_eq, List.filterMap_map, List.map_filterMap]
  exact List.filterMap_congr fun i _ => ht.node?_up i

theorem Twin.find?_children {q q' : Node → Bool}
    (hc : ∀ c, g.IsComment c → q' c = false)
    (hq : ∀ a ∈ f.children n, q' (g.lift f' a) = q a) :
    (f'.children (g.lift f' n)).find? q' = ((f.children n).find? q).map (g.lift f') :=
  (ht.children hn).find?_map (fun c hhas hid => hc c (ht.isComment hhas hid)) hq

theorem Twin.filter_children {q q' : Node → Bool}
    (hc : ∀ c, g.IsComment c → q' c = false)
    (hq : ∀ a ∈ f.children n, q' (g.lift f' a) = q a) :
    (f'.children (g.lift f' n)).filter q' = ((f.children n).filter q).map (g.lift f') :=
  (ht.children hn).filter_map (fun c hhas hid => hc c (ht.isComment hhas hid)) hq

theorem Twin.child?_lift (field : String) :
    f'.child? (g.lift f' n) field = (f.child? n field).map (g.lift f') := by
  refine ht.find?_children hn (fun c hc => ?_) fun m hm => ?_
  · simp [Node.hasField, hc.field_eq]
  · rw [Node.hasField, (ht.same_child hm).field_eq]
    rfl

theorem Twin.firstOf?_lift {kind : Kind} (hkind : kind ≠ .comment) :
    f'.firstOf? (g.lift f' n) kind = (f.firstOf? n kind).map (g.lift f') := by
  refine ht.find?_children hn (fun c hc => ?_) fun m hm => ?_
  · simp [hc.kind_eq, hkind.symm]
  · rw [(ht.same_child hm).kind_eq]

end Children

/-! ## Walks -/

theorem map_trailFrom {h : Node → Node} {step step' : Node → Option Node} {P : Node → Prop}
    (hstep : ∀ {n}, P n → step' (h n) = (step n).map h)
    (hP : ∀ {n m}, P n → step n = some m → P m) (fuel : Nat) {n : Node} (hn : P n) :
    SourceFile.trailFrom step' fuel (h n) = (SourceFile.trailFrom step fuel n).map h := by
  induction fuel generalizing n with
  | zero => rfl
  | succ fuel ih =>
    unfold SourceFile.trailFrom
    rw [hstep hn]
    cases hs : step n with
    | none => rfl
    | some m =>
      rw [Option.map_some]
      dsimp only
      rw [ih (hP hn hs), List.map_cons]

section Walks
variable (ht : g.Twin f f')
include ht

theorem Twin.trail_lift {step step' : Node → Option Node} (hd : f.Descends step)
    (hstep : ∀ {n}, f.Has n → step' (g.lift f' n) = (step n).map (g.lift f')) {n : Node}
    (hn : f.Has n) : f'.trail step' (g.lift f' n) = (f.trail step n).map (g.lift f') := by
  have hmeasure := @SourceFile.Linked.descends_measure f ht.linked step @hd
  unfold SourceFile.trail
  rw [map_trailFrom hstep (fun hn hs => (hmeasure hn hs).1) _ hn, ht.size_eq]
  exact congrArg _ (SourceFile.trailFrom_fuel hmeasure hn (Nat.sub_le _ _)
    (Nat.le_succ_of_le (Nat.sub_le _ _)))

theorem Twin.ancestors_lift {n : Node} (hn : f.Has n) :
    f'.ancestors (g.lift f' n) = (f.ancestors n).map (g.lift f') := by
  have hmeasure := @SourceFile.Linked.parent?_measure f ht.linked
  have hlt := Nat.le_of_lt hn.lt_size
  unfold SourceFile.ancestors SourceFile.trail
  rw [map_trailFrom ht.parent?_lift (fun hn hs => (hmeasure hn hs).1) _ hn, ht.size_eq,
    SourceFile.trailFrom_fuel hmeasure hn hlt (Nat.le_succ_of_le hlt), List.map_tail]

theorem Twin.has_ancestors {n : Node} (hn : f.Has n) : ∀ a ∈ f.ancestors n, f.Has a :=
  ht.linked.stable_has.ancestors hn

theorem Twin.enclosingFunctions_lift {n : Node} (hn : f.Has n) :
    f'.enclosingFunctions (g.lift f' n) = (f.enclosingFunctions n).map (g.lift f') := by
  unfold SourceFile.enclosingFunctions
  rw [ht.ancestors_lift hn, List.filter_map]
  refine congrArg _ (List.filter_congr fun a ha => ?_)
  rw [Function.comp_apply, (ht.same_lift (ht.has_ancestors hn a ha)).kind_eq]

theorem Twin.enclosingClass?_lift {n : Node} (hn : f.Has n) :
    f'.enclosingClass? (g.lift f' n) = (f.enclosingClass? n).map (g.lift f') := by
  unfold SourceFile.enclosingClass?
  rw [ht.ancestors_lift hn, List.find?_map]
  refine congrArg _ (List.find?_congr fun a ha => ?_)
  rw [Function.comp_apply, (ht.same_lift (ht.has_ancestors hn a ha)).kind_eq]

theorem Twin.preorder_comment {enter' : Node → Bool} {c : Node} (hc : f'.Has c)
    (hid : c.id = g.site) : ∀ b ∈ f'.preorder enter' c, b.id = g.site := by
  intro b hb
  have hnil : f'.children c = [] := by
    unfold SourceFile.children
    rw [(ht.isComment hc hid).children_eq]
    rfl
  rw [ht.linked'.preorder_eq _ hc, hnil] at hb
  split at hb
  · rw [List.mem_singleton.1 hb, hid]
  · cases hb

theorem Twin.preorder {enter enter' : Node → Bool}
    (henter : ∀ m, f.Has m → enter' (g.lift f' m) = enter m) {n : Node} (hn : f.Has n) :
    g.Padded f' (f.preorder enter n) (f'.preorder enter' (g.lift f' n)) := by
  refine ht.linked.leafInduction
    (P := fun n => g.Padded f' (f.preorder enter n) (f'.preorder enter' (g.lift f' n))) ?_ n hn
  intro n hn ih
  rw [ht.linked.preorder_eq _ hn, ht.linked'.preorder_eq _ (ht.has_lift hn), henter n hn]
  split
  · have hchildren : g.Padded f' ((f.children n).flatMap (f.preorder enter))
        ((f'.children (g.lift f' n)).flatMap (f'.preorder enter')) :=
      (ht.children hn).flatMap
        (fun a ha => ht.linked'.stable_has.preorder (ht.linked'.has_of_mem_children ha))
        (fun c hc hid => ht.preorder_comment hc hid) ih
    exact (ht.map_lift_has (l := [n]) (by simpa using hn)).append hchildren
  · exact .nil

theorem Twin.descendants {n : Node} (hn : f.Has n) :
    g.Padded f' (f.descendants n) (f'.descendants (g.lift f' n)) := by
  unfold SourceFile.descendants
  refine ht.preorder ?_ hn
  exact fun _ _ => rfl

theorem Twin.has_descendants {n : Node} (hn : f.Has n) : ∀ a ∈ f.descendants n, f.Has a :=
  ht.linked.stable_has.preorder hn

omit ht in
theorem filterMap_range (nodes : List Node) :
    (List.range nodes.length).filterMap (nodes[·]?) = nodes := by
  induction nodes using List.reverseRecOn with
  | nil => rfl
  | append_singleton nodes n ih =>
    rw [List.length_append, List.length_singleton, List.range_succ, List.filterMap_append]
    congr 1
    · refine Eq.trans (List.filterMap_congr fun i hi => ?_) ih
      exact List.getElem?_append_left (List.mem_range.1 hi)
    · simp

omit ht in
/-- All ids but that of the comment, in order. -/
theorem filter_range {size : Nat} (h : g.site ≤ size) :
    (List.range (size + 1)).filter (· != g.site) = (List.range size).map g.up := by
  obtain ⟨k, rfl⟩ := Nat.exists_eq_add_of_le h
  have hfront : (List.range g.site).filter (· != g.site) = (List.range g.site).map g.up := by
    rw [List.filter_eq_self.2 fun i hi => by simpa using Nat.ne_of_lt (List.mem_range.1 hi)]
    refine Eq.trans (List.map_id _).symm (List.map_congr_left fun i hi => ?_)
    unfold up
    rw [if_pos (List.mem_range.1 hi), id]
  have hback : ((List.range (k + 1)).map (g.site + ·)).filter (· != g.site) =
      ((List.range k).map (g.site + ·)).map g.up := by
    rw [List.range_succ_eq_map, List.map_cons, List.filter_cons, if_neg (by simp), List.map_map,
      List.map_map, List.filter_eq_self.2]
    · refine List.map_congr_left fun i _ => ?_
      simp only [Function.comp_apply]
      unfold up
      rw [if_neg (by omega)]
      omega
    · intro i hi
      obtain ⟨j, -, rfl⟩ := List.mem_map.1 hi
      simp
  rw [Nat.add_assoc, List.range_add (m := k + 1), List.filter_append, hfront, hback,
    List.range_add, List.map_append]

/-- The nodes of one kind, in the order of their ids. -/
theorem Twin.nodesOf_eq {kind : Kind} (hkind : kind ≠ .comment) :
    f'.nodesOf kind = (f.nodesOf kind).map (g.lift f') := by
  have hlist : ∀ h : SourceFile, h.nodes.toList = (List.range h.size).filterMap h.node? := by
    intro h
    rw [← filterMap_range h.nodes.toList, Array.length_toList]
    exact List.filterMap_congr fun i _ => Array.getElem?_toList
  have hpadded : g.Padded f' f.nodes.toList f'.nodes.toList := by
    rw [hlist, hlist]
    refine ⟨fun a ha => ?_, ?_⟩
    · obtain ⟨i, -, hi⟩ := List.mem_filterMap.1 ha
      exact ht.linked'.has hi
    · rw [ht.filter_filterMap_node?, ht.size_eq, filter_range ht.site_le, List.filterMap_map,
        List.map_filterMap]
      exact List.filterMap_congr fun i _ => ht.node?_up i
  refine hpadded.filter_map (fun c hc hid => ?_) fun a ha => ?_
  · simp [(ht.isComment hc hid).kind_eq, hkind.symm]
  · rw [hlist] at ha
    obtain ⟨i, -, hi⟩ := List.mem_filterMap.1 ha
    rw [(ht.same_lift (ht.linked.has hi)).kind_eq]

end Walks

/-! ## Texts -/

theorem Twin.text?_lift (ht : g.Twin f f') {n : Node} (hn : f.Has n) (hs : ¬ g.Straddles n.span) :
    f'.text? (g.lift f' n) = f.text? n := by
  have hsame := ht.same_lift hn
  unfold SourceFile.text?
  rw [ht.source_eq, ht.source_eq', hsame.start_eq, hsame.stop_eq]
  exact slice?_of_not_straddles hs (ht.span_ne hn)

theorem Twin.text_lift (ht : g.Twin f f') {n : Node} (hn : f.Has n) (hs : ¬ g.Straddles n.span) :
    f'.text (g.lift f' n) = f.text n :=
  congrArg (Option.getD · "") (ht.text?_lift hn hs)

/-- The text of a node that the comment falls into. -/
theorem Twin.text?_of_straddles (ht : g.Twin f f') {n : Node} (hn : f.Has n)
    (hs : g.Straddles n.span) :
    ∃ x y, Text.slice? g.before n.span.start g.offset = some x ∧ f.text? n = some (x ++ y) ∧
      f'.text? (g.lift f' n) = some (x ++ (g.comment ++ y)) := by
  have hsame := ht.same_lift hn
  have hrange := ht.range hn
  unfold SourceFile.text?
  rw [ht.source_eq, ht.source_eq', hsame.start_eq, hsame.stop_eq]
  unfold start stop
  rw [if_pos hs.1, if_neg (Nat.not_le.2 hs.2)]
  rcases slices_across (Nat.le_of_lt hs.1) (Nat.le_of_lt hs.2) with h | ⟨hnone, -⟩
  · exact h
  · rw [hnone] at hrange
    cases hrange

theorem Twin.text_of_straddles (ht : g.Twin f f') {n : Node} (hn : f.Has n)
    (hs : g.Straddles n.span) :
    ∃ x y, Text.slice? g.before n.span.start g.offset = some x ∧ f.text n = x ++ y ∧
      f'.text (g.lift f' n) = x ++ (g.comment ++ y) := by
  obtain ⟨x, y, hx, hplain, hcommented⟩ := ht.text?_of_straddles hn hs
  exact ⟨x, y, hx, congrArg (Option.getD · "") hplain, congrArg (Option.getD · "") hcommented⟩

end PhpAudit.Insertion
