import Mathlib.Data.List.Induction
import Mathlib.Data.List.Nodup
import PhpAudit.Proofs.Tree.Order

/-!
# Arenas that are built node by node

A file may grow in any order: a node can be appended below any earlier node, or below none, whatever has been
appended since. After each append the file is `Coherent`: its links agree, the way up from a node ends at one
without a parent, and the walk down from a node meets everything that hangs from it, once each, what is above
before what is below and the subtree of a child before those of later children (`coherent_ofDrafts`). In such a
file the ids of a walk need not increase. A draft that names a parent which is not there is appended too, and the
nodes are numbered all the same (`numbered_ofDrafts`).
-/

namespace PhpAudit

/-- Each draft hangs from an earlier one, if from any. -/
def Appendable (drafts : List Draft) : Prop :=
  ∀ (i : Nat) (d : Draft), drafts[i]? = some d → ∀ p, d.parent = some p → p < i

namespace SourceFile

variable {f : SourceFile} {drafts : List Draft}

/-- The file after drafts have been appended in turn. -/
def ofDrafts (path source : String) (drafts : List Draft) : SourceFile :=
  drafts.foldl push { path := path, source := source }

/-! ## The way up -/

theorem Linked.parent_eq_none (hf : f.Linked) {n : Node} (hn : f.Has n) (h : f.parent? n = none) :
    n.parent = none := by
  refine Option.eq_none_iff_forall_ne_some.2 fun p hp => ?_
  obtain ⟨m, hm⟩ := exists_node?_of_lt (Nat.lt_trans (hf.parent_lt hn hp) hn.lt_size)
  rw [parent?, hp, Option.bind_some, hm] at h
  cases h

/-- What goes up from a node: every node is followed by its parent, ids fall, and the last node has no parent. -/
structure LeadsUp (f : SourceFile) (up : List Node) : Prop where
  isChain : up.IsChain fun n p => f.parent? n = some p
  falls : up.Pairwise fun n m => m.id < n.id
  parent_eq_none : ∀ n, up.getLast? = some n → n.parent = none

theorem Linked.leadsUp (hf : f.Linked) {n : Node} (hn : f.Has n) : f.LeadsUp (n :: f.ancestors n) := by
  refine hf.rootInduction (P := fun n => f.LeadsUp (n :: f.ancestors n)) ?_ n hn
  intro n hn ih
  rw [hf.ancestors_eq hn]
  cases hp : f.parent? n with
  | none =>
    refine ⟨.singleton n, List.pairwise_singleton _ n, fun m hm => ?_⟩
    obtain rfl := Option.some.inj hm
    exact hf.parent_eq_none hn hp
  | some p =>
    have hup := ih p hp
    have hlt := hf.parent?_lt hn hp
    rw [Option.map_some, Option.getD_some]
    refine ⟨List.isChain_cons_cons.2 ⟨hp, hup.isChain⟩, List.pairwise_cons.2 ⟨fun m hm => ?_, hup.falls⟩, ?_⟩
    · rcases List.mem_cons.1 hm with rfl | hm
      · exact hlt
      · exact Nat.lt_trans ((List.pairwise_cons.1 hup.falls).1 m hm) hlt
    · exact fun m hm => hup.parent_eq_none m (by rwa [List.getLast?_cons_cons] at hm)

/-- A node is below another if it is that node or has it among its ancestors. -/
theorem Linked.below_iff (hf : f.Linked) {x y : Node} (hx : f.Has x) (hy : f.Has y) :
    f.Below x y ↔ y = x ∨ x ∈ f.ancestors y := by
  constructor
  · intro h
    induction h with
    | refl => exact .inl rfl
    | @tail b y hb hc ih =>
      have hbhas := hf.has_of_below hx hb
      rw [hf.ancestors_eq hy, (hf.parent?_eq_some_iff hy).2 ⟨hbhas, hc⟩, Option.map_some, Option.getD_some,
        List.mem_cons]
      exact .inr ((ih hbhas).imp_left Eq.symm)
  · refine hf.rootInduction (P := fun y => y = x ∨ x ∈ f.ancestors y → f.Below x y) ?_ y hy
    intro y hy ih h
    rcases h with rfl | h
    · exact .refl
    · rw [hf.ancestors_eq hy] at h
      cases hp : f.parent? y with
      | none =>
        rw [hp] at h
        cases h
      | some p =>
        rw [hp, Option.map_some, Option.getD_some, List.mem_cons] at h
        exact (ih p hp (h.imp_left Eq.symm)).tail ((hf.parent?_eq_some_iff hy).1 hp).2

/-! ## The walk down -/

theorem Linked.descendants_eq (hf : f.Linked) {n : Node} (hn : f.Has n) :
    f.descendants n = n :: (f.children n).flatMap f.descendants := by
  unfold descendants
  rw [hf.preorder_eq _ hn, if_pos rfl]

/-- What hangs from two children of a node hangs from different ones. -/
theorem Linked.not_below_sibling (hf : f.Linked) {n c d m : Node} (hn : f.Has n) (hc : c ∈ f.children n)
    (hd : d ∈ f.children n) (hne : c ≠ d) (hm : f.Below c m) : ¬ f.Below d m := by
  have hchas := hf.has_of_mem_children hc
  have hdhas := hf.has_of_mem_children hd
  have hcparent := (hf.parent?_eq_some_iff hchas).2 ⟨hn, hc⟩
  have hdparent := (hf.parent?_eq_some_iff hdhas).2 ⟨hn, hd⟩
  -- a proper way down to a child of `n` leads through `n`, which stands in front of its children
  have through : ∀ {a b}, f.Has a → f.Has b → f.parent? b = some n → n.id < a.id → a ≠ b →
      ¬ f.Below a b := by
    intro a b ha hb hparent hlt hne hbelow
    rcases Relation.ReflTransGen.cases_tail hbelow with heq | ⟨p, hap, hpb⟩
    · exact hne heq.symm
    · have hp := (hf.parent?_eq_some_iff hb).2 ⟨hf.has_of_below ha hap, hpb⟩
      obtain rfl := Option.some.inj (hparent.symm.trans hp)
      have := hf.le_of_below ha hap
      omega
  induction hm with
  | refl => exact through hdhas hchas hcparent (hf.child_lt hn hd) hne.symm
  | @tail b m hb hm ih =>
    intro hdm
    have hbhas := hf.has_of_below hchas hb
    have hmhas := hf.has_of_mem_children hm
    have hparent := (hf.parent?_eq_some_iff hmhas).2 ⟨hbhas, hm⟩
    rcases Relation.ReflTransGen.cases_tail hdm with rfl | ⟨p, hdp, hpm⟩
    · exact through hchas hmhas hdparent (hf.child_lt hn hc) hne (hb.tail hm)
    · have hp := (hf.parent?_eq_some_iff hmhas).2 ⟨hf.has_of_below hdhas hdp, hpm⟩
      obtain rfl := Option.some.inj (hparent.symm.trans hp)
      exact ih hdp

theorem Linked.nodup_descendants (hf : f.Linked) {n : Node} (hn : f.Has n) : (f.descendants n).Nodup := by
  refine hf.leafInduction (P := fun n => (f.descendants n).Nodup) ?_ n hn
  intro n hn ih
  rw [hf.descendants_eq hn, List.nodup_cons, List.nodup_flatMap]
  refine ⟨fun h => ?_, ih, ?_⟩
  · obtain ⟨c, hc, hm⟩ := List.mem_flatMap.1 h
    have hchas := hf.has_of_mem_children hc
    have := hf.le_of_below hchas ((hf.mem_descendants hchas).1 hm)
    have := hf.child_lt hn hc
    omega
  · refine (hf.children_pairwise hn).imp_of_mem fun {c d} hc hd hlt m hcm hdm => ?_
    have hchas := hf.has_of_mem_children hc
    have hdhas := hf.has_of_mem_children hd
    have hne : c ≠ d := by
      rintro rfl
      exact Nat.lt_irrefl _ hlt
    exact hf.not_below_sibling hn hc hd hne ((hf.mem_descendants hchas).1 hcm)
      ((hf.mem_descendants hdhas).1 hdm)

theorem Linked.descendants_child_sublist (hf : f.Linked) {n c : Node} (hn : f.Has n)
    (hc : c ∈ f.children n) : (f.descendants c).Sublist (f.descendants n) := by
  rw [hf.descendants_eq hn]
  refine .cons n ?_
  simpa using (List.singleton_sublist.2 hc).flatMap f.descendants

/-- The walk from a node passes through the walk from everything below the node. -/
theorem Linked.descendants_sublist (hf : f.Linked) {n m : Node} (hn : f.Has n) (h : f.Below n m) :
    (f.descendants m).Sublist (f.descendants n) := by
  induction h with
  | refl => exact List.Sublist.refl _
  | tail hb hm ih => exact (hf.descendants_child_sublist (hf.has_of_below hn hb) hm).trans ih

theorem Linked.above_sublist (hf : f.Linked) {x a b : Node} (hx : f.Has x) (ha : f.Below x a) (hb : f.Has b)
    (hab : a ∈ f.ancestors b) : [a, b].Sublist (f.descendants x) := by
  have hahas := hf.has_of_below hx ha
  have hbelow := (hf.below_iff hahas hb).2 (.inr hab)
  have hne : b ≠ a := by
    rintro rfl
    exact Nat.lt_irrefl _ ((List.pairwise_cons.1 (hf.leadsUp hb).falls).1 b hab)
  have hmem := (hf.mem_descendants hahas).2 hbelow
  refine List.Sublist.trans ?_ (hf.descendants_sublist hx ha)
  rw [hf.descendants_eq hahas] at hmem ⊢
  exact (List.singleton_sublist.2 ((List.mem_cons.1 hmem).resolve_left hne)).cons_cons a

theorem Linked.aside_sublist (hf : f.Linked) {x p c d : Node} (hx : f.Has x) (hp : f.Below x p)
    (hcd : [c, d].Sublist (f.children p)) :
    (f.descendants c ++ f.descendants d).Sublist (f.descendants x) := by
  refine List.Sublist.trans ?_ (hf.descendants_sublist hx hp)
  rw [hf.descendants_eq (hf.has_of_below hx hp)]
  refine .cons p ?_
  simpa using hcd.flatMap f.descendants

/-! ## Appending in any order -/

/-- The links of a file agree, and its walks follow them: up to a node without a parent, and down through all that
hangs from a node, what is above in front of what is below and the subtree of a child in front of those of later
children. -/
structure Coherent (f : SourceFile) : Prop extends f.Linked where
  map_id_children : ∀ n, f.Has n → (f.children n).map (·.id) = n.children
  leadsUp : ∀ x, f.Has x → f.LeadsUp (x :: f.ancestors x)
  head_descendants : ∀ x, f.Has x → (f.descendants x).head? = some x
  mem_descendants : ∀ x y, f.Has x →
    (y ∈ f.descendants x ↔ f.Has y ∧ (y = x ∨ x ∈ f.ancestors y))
  nodup_descendants : ∀ x, f.Has x → (f.descendants x).Nodup
  above : ∀ x a b, f.Has x → a ∈ f.descendants x → f.Has b → a ∈ f.ancestors b →
    [a, b].Sublist (f.descendants x)
  aside : ∀ x p c d, f.Has x → p ∈ f.descendants x → [c, d].Sublist (f.children p) →
    (f.descendants c ++ f.descendants d).Sublist (f.descendants x)

theorem Linked.coherent (hf : f.Linked) : f.Coherent where
  toLinked := hf
  map_id_children _ hn := hf.map_id_children hn
  leadsUp _ hx := hf.leadsUp hx
  head_descendants x hx := by rw [hf.descendants_eq hx, List.head?_cons]
  mem_descendants x y hx := by
    rw [hf.mem_descendants hx]
    constructor
    · intro h
      have hy := hf.has_of_below hx h
      exact ⟨hy, (hf.below_iff hx hy).1 h⟩
    · exact fun ⟨hy, h⟩ => (hf.below_iff hx hy).2 h
  nodup_descendants _ hx := hf.nodup_descendants hx
  above _ _ _ hx ha hb := hf.above_sublist hx ((hf.mem_descendants hx).1 ha) hb
  aside _ _ _ _ hx hp := hf.aside_sublist hx ((hf.mem_descendants hx).1 hp)

theorem ofDrafts_concat (path source : String) (drafts : List Draft) (d : Draft) :
    ofDrafts path source (drafts ++ [d]) = (ofDrafts path source drafts).push d := by
  unfold ofDrafts
  rw [List.foldl_append, List.foldl_cons, List.foldl_nil]

theorem drafts_ofDrafts (path source : String) (drafts : List Draft) :
    (ofDrafts path source drafts).nodes.toList.map (·.toDraft) = drafts := by
  induction drafts using List.reverseRecOn with
  | nil => rfl
  | append_singleton drafts d ih => rw [ofDrafts_concat, drafts_push, ih]

theorem size_ofDrafts (path source : String) (drafts : List Draft) :
    (ofDrafts path source drafts).size = drafts.length := by
  have hlength := congrArg List.length (drafts_ofDrafts path source drafts)
  rwa [List.length_map, Array.length_toList] at hlength

/-- A node has the position at which it stands as its id. -/
def Numbered (f : SourceFile) : Prop := ∀ i n, f.node? i = some n → n.id = i

theorem Numbered.push (hf : f.Numbered) (d : Draft) : (f.push d).Numbered := by
  intro i n h
  rcases push_cases h with ⟨hi, rfl⟩ | ⟨m, hm, -, hid, -⟩
  · exact hi.symm
  · rw [hid, hf i m hm]

/-- The nodes are numbered whatever parents the drafts name: one that is not there is told of no child. -/
theorem numbered_ofDrafts (path source : String) (drafts : List Draft) :
    (ofDrafts path source drafts).Numbered := by
  induction drafts using List.reverseRecOn with
  | nil =>
    intro i n h
    simp [ofDrafts, node?] at h
  | append_singleton drafts d ih =>
    rw [ofDrafts_concat]
    exact ih.push d

/-- Every append keeps the links in agreement, as it finds the parent of the new node in the file. -/
theorem linked_ofDrafts (h : Appendable drafts) (path source : String) :
    (ofDrafts path source drafts).Linked := by
  induction drafts using List.reverseRecOn with
  | nil => exact linked_empty path source
  | append_singleton drafts d ih =>
    rw [ofDrafts_concat]
    refine (ih fun i d' hd' => h i d' ?_).push fun p hp => ?_
    · rw [List.getElem?_append_left (List.getElem?_eq_some_iff.1 hd').1, hd']
    · rw [size_ofDrafts]
      exact h drafts.length d (by rw [List.getElem?_concat_length]) p hp

/-- Whatever has been appended so far, below earlier nodes or below none and in whatever order, the file has these
nodes, with their positions as their ids, and is coherent. -/
theorem coherent_ofDrafts (h : Appendable drafts) (path source : String) {before : List Draft}
    (hbefore : before <+: drafts) :
    (ofDrafts path source before).nodes.toList.map (·.toDraft) = before ∧
      (ofDrafts path source before).Coherent := by
  refine ⟨drafts_ofDrafts path source before, (linked_ofDrafts ?_ path source).coherent⟩
  obtain ⟨behind, rfl⟩ := hbefore
  intro i d hd
  exact h i d (by rw [List.getElem?_append_left (List.getElem?_eq_some_iff.1 hd).1, hd])

/-- A draft of a name below the node with an id. -/
def nameBelow (parent : Option Nat) : Draft :=
  { kind := .name, form := "name", parent := parent, span := ⟨0, 1⟩, place := ⟨1, 1⟩ }

/-- Two trees that grow in turn, the children of a node with other nodes in between. -/
def entwinedDrafts : List Draft :=
  [none, some 0, none, some 0, some 1, some 2, some 3, some 1, some 0].map nameBelow

/-- The walk through the first of the two trees goes to and fro between larger and smaller ids. -/
theorem coherent_entwined :
    Appendable entwinedDrafts ∧
      ((ofDrafts "" "x" entwinedDrafts).node? 0).map
          (fun n => ((ofDrafts "" "x" entwinedDrafts).descendants n).map (·.id)) =
        some [0, 1, 4, 7, 3, 6, 8] ∧
      (ofDrafts "" "x" entwinedDrafts).Coherent := by
  have h : Appendable entwinedDrafts := by
    have hall : ∀ i < 9, ∀ p ∈ entwinedDrafts[i]?.bind (·.parent), p < i := by decide
    intro i d hd p hp
    exact hall i (List.getElem?_eq_some_iff.1 hd).1 p (by rw [hd, Option.bind_some, hp, Option.mem_some])
  exact ⟨h, by decide +kernel, (coherent_ofDrafts h "" "x" (List.prefix_refl _)).2⟩

end SourceFile

end PhpAudit
