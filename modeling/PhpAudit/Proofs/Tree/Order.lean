import Mathlib.Data.List.Flatten
import Mathlib.Logic.Relation
import PhpAudit.Proofs.Tree.Complete
import PhpAudit.Proofs.Tree.Walk

/-!
# Files in source order

A grammar walks a text from front to back, so its outline lists a tree in preorder and no row starts
before an earlier one. The arena inherits both (`inOrder_of_parse`): what stands between a node and one of
its children hangs from the node, and nodes with larger ids start no earlier. Hence the ids of a preorder
walk increase (`InOrder.preorder_pairwise`), also where the walk passes by some subtrees.
-/

namespace PhpAudit

/-- No row starts before an earlier one: a child starts within its parent and behind its elder siblings. -/
def Outline.InOrder (rows : Outline) : Prop :=
  rows.Pairwise fun r s => r.span.start ≤ s.span.start

/-- The outlines of a grammar follow the text. -/
def Grammar.InOrder (g : Grammar) : Prop :=
  ∀ source rows, g source = some rows → Outline.InOrder rows

namespace SourceFile

variable {f f' : SourceFile}

/-! ## Preorder -/

/-- Node `p` is the parent of node `i`. -/
def Hangs (f : SourceFile) (p i : Nat) : Prop :=
  ∃ n, f.node? i = some n ∧ n.parent = some p

/-- What stands between a node and one of its children hangs from the node. -/
def Preordered (f : SourceFile) : Prop :=
  ∀ p i, f.Hangs p i → ∀ k, p ≤ k → k < i → Relation.ReflTransGen f.Hangs p k

theorem hangs_push {d : Draft} {p i : Nat} :
    (f.push d).Hangs p i ↔ f.Hangs p i ∨ (i = f.size ∧ d.parent = some p) := by
  constructor
  · rintro ⟨n, hn, hp⟩
    rcases push_cases hn with ⟨hi, rfl⟩ | ⟨m, hm, hdraft, -, -⟩
    · exact .inr ⟨hi, hp⟩
    · exact .inl ⟨m, hm, by rw [← hdraft]; exact hp⟩
  · rintro (⟨m, hm, hp⟩ | ⟨rfl, hp⟩)
    · obtain ⟨n, hn, hdraft, -⟩ := push_old d hm
      exact ⟨n, hn, by rw [hdraft]; exact hp⟩
    · exact ⟨_, push_new f d, hp⟩

/-- The ids on the way up from the last node: they fall, and everything behind one of them hangs from it. -/
structure OpenPath (f : SourceFile) (path : List Nat) : Prop where
  falls : path.Pairwise (· > ·)
  lt_size : ∀ p ∈ path, p < f.size
  covers : ∀ p ∈ path, ∀ k, p ≤ k → k < f.size → Relation.ReflTransGen f.Hangs p k

/-- Appending below the first id of an open path keeps the path open. -/
theorem OpenPath.push {path : List Nat} (hpath : f.OpenPath path) {d : Draft}
    (hd : d.parent = path.head?) : (f.push d).OpenPath (f.size :: path) := by
  have grows : ∀ {p k}, Relation.ReflTransGen f.Hangs p k →
      Relation.ReflTransGen (f.push d).Hangs p k :=
    fun h => Relation.ReflTransGen.mono (fun _ _ h => hangs_push.2 (.inl h)) _ _ h
  refine ⟨List.pairwise_cons.2 ⟨hpath.lt_size, hpath.falls⟩, ?_, ?_⟩
  · intro p hp
    rw [size_push]
    rcases List.mem_cons.1 hp with rfl | hp
    · exact Nat.lt_succ_self _
    · exact Nat.lt_succ_of_lt (hpath.lt_size p hp)
  · intro p hp k hle hlt
    rw [size_push] at hlt
    rcases List.mem_cons.1 hp with rfl | hp
    · rw [show k = f.size by omega]
    · by_cases hk : k < f.size
      · exact grows (hpath.covers p hp k hle hk)
      · -- the new node hangs from the first id, and that one from all the others
        obtain rfl : k = f.size := by omega
        cases path with
        | nil => cases hp
        | cons q path =>
          have hqp : p ≤ q := by
            rcases List.mem_cons.1 hp with rfl | hp
            · exact Nat.le_refl _
            · exact Nat.le_of_lt ((List.pairwise_cons.1 hpath.falls).1 p hp)
          have hq := hpath.covers p hp q hqp (hpath.lt_size q List.mem_cons_self)
          exact (grows hq).tail (hangs_push.2 (.inr ⟨rfl, hd⟩))

theorem Preordered.push (hf : f.Preordered) {path : List Nat} (hpath : f.OpenPath path) {d : Draft}
    (hd : d.parent = path.head?) : (f.push d).Preordered := by
  intro p i hi k hle hlt
  have hold : Relation.ReflTransGen f.Hangs p k := by
    rcases hangs_push.1 hi with hi | ⟨rfl, hp⟩
    · exact hf p i hi k hle hlt
    · exact hpath.covers p (List.mem_of_mem_head? (hd.symm.trans hp)) k hle hlt
  exact Relation.ReflTransGen.mono (fun _ _ h => hangs_push.2 (.inl h)) _ _ hold

theorem Preordered.pushRows {starts : List Nat} {path : List Nat} {rows : Outline}
    (hf : f.Preordered) (hpath : f.OpenPath path) :
    (SourceFile.pushRows starts f path rows).Preordered := by
  induction rows generalizing f path with
  | nil => exact hf
  | cons row rows ih =>
    unfold SourceFile.pushRows
    have habove : f.OpenPath (path.drop (path.length - row.depth)) :=
      ⟨hpath.falls.drop, fun p hp => hpath.lt_size p (List.mem_of_mem_drop hp),
        fun p hp => hpath.covers p (List.mem_of_mem_drop hp)⟩
    refine ih (hf.push habove ?_) (habove.push ?_) <;> rfl

theorem preordered_ofOutline (path source : String) (rows : Outline) :
    (ofOutline path source rows).Preordered := by
  have hempty : ({ path := path, source := source } : SourceFile).Preordered := by
    rintro p i ⟨n, hn, -⟩
    simp [node?] at hn
  unfold ofOutline
  exact hempty.pushRows ⟨List.Pairwise.nil, by simp, by simp⟩

/-! ## The order of the text -/

theorem spans_push (d : Draft) :
    (f.push d).nodes.toList.map (·.span) = f.nodes.toList.map (·.span) ++ [d.span] := by
  have hspans := congrArg (List.map (·.span)) (drafts_push f d)
  rwa [List.map_append, List.map_map, List.map_map] at hspans

theorem spans_pushRows (starts path : List Nat) (rows : Outline) :
    (SourceFile.pushRows starts f path rows).nodes.toList.map (·.span) =
      f.nodes.toList.map (·.span) ++ rows.map (·.span) := by
  induction rows generalizing f path with
  | nil => simp [SourceFile.pushRows]
  | cons row rows ih =>
    unfold SourceFile.pushRows
    rw [ih, spans_push, List.map_cons, List.append_assoc, List.singleton_append]

/-- The arena lists its tree in preorder, and nodes with larger ids start no earlier. -/
structure InOrder (f : SourceFile) : Prop extends f.Linked where
  preordered : f.Preordered
  start_le : ∀ {n m}, f.Has n → f.Has m → n.id ≤ m.id → n.span.start ≤ m.span.start

theorem Filled.hangs {h : Node → Node} (hf : Filled h f f') {p i : Nat} :
    f'.Hangs p i ↔ f.Hangs p i := by
  unfold Hangs
  rw [hf.node?_eq]
  constructor
  · rintro ⟨n, hn, hp⟩
    obtain ⟨m, hm, rfl⟩ := Option.map_eq_some_iff.1 hn
    exact ⟨m, hm, by rw [← hf.fills.parent_eq]; exact hp⟩
  · rintro ⟨m, hm, hp⟩
    exact ⟨h m, by rw [hm, Option.map_some], by rw [hf.fills.parent_eq]; exact hp⟩

theorem inOrder_ofParts {path source : String} {rows : Outline} (hrows : rows.InOrder) :
    (ofParts path source rows).InOrder := by
  obtain ⟨h, hfilled, -⟩ := filled_ofParts path source rows
  refine { linked_ofParts path source rows with preordered := ?_, start_le := ?_ }
  · intro p i hi k hle hlt
    have hold := preordered_ofOutline path source rows p i (hfilled.hangs.1 hi) k hle hlt
    exact Relation.ReflTransGen.mono (fun _ _ h => hfilled.hangs.2 h) _ _ hold
  · have hspans : (ofParts path source rows).nodes.toList.map (·.span) = rows.map (·.span) := by
      have hkeep : (fun n : Node => n.span) ∘ h = fun n => n.span := funext hfilled.fills.span_eq
      rw [hfilled.nodes_eq, Array.toList_map, List.map_map, hkeep]
      exact (spans_pushRows _ [] rows).trans (List.nil_append _)
    have hsorted : ((ofParts path source rows).nodes.toList.map (·.span)).Pairwise
        (·.start ≤ ·.start) := by
      rw [hspans, List.pairwise_map]
      exact hrows
    intro n m hn hm hle
    rcases Nat.eq_or_lt_of_le hle with heq | hlt
    · rw [hn.ext hm heq]
    · obtain ⟨hi, hgi⟩ := Array.getElem?_eq_some_iff.1 hn
      obtain ⟨hj, hgj⟩ := Array.getElem?_eq_some_iff.1 hm
      have hstarts := List.pairwise_iff_getElem.1 hsorted n.id m.id (by simpa using hi)
        (by simpa using hj) hlt
      simpa [hgi, hgj] using hstarts

/-- Every parsed file is in order. -/
theorem inOrder_of_parse {g : Grammar} (hg : g.InOrder) {path source : String}
    (hparse : parse g path source = .ok f) : f.InOrder := by
  obtain ⟨rows, hrows, rfl⟩ := ofParts_of_parse hparse
  exact inOrder_ofParts (hg source rows hrows)

/-! ## Below and between -/

theorem Linked.le_of_below (hf : f.Linked) {n m : Node} (hn : f.Has n) (h : f.Below n m) :
    n.id ≤ m.id := by
  induction h with
  | refl => exact Nat.le_refl _
  | tail hb hm ih => exact Nat.le_trans ih (Nat.le_of_lt (hf.child_lt (hf.has_of_below hn hb) hm))

theorem Linked.below_of_hangs (hf : f.Linked) {n m : Node} (hn : f.Has n) (hm : f.Has m)
    (h : Relation.ReflTransGen f.Hangs n.id m.id) : f.Below n m := by
  generalize hi : m.id = i at h
  induction h generalizing m with
  | refl => rw [hm.ext hn hi]; exact .refl
  | tail _ hstep ih =>
    subst hi
    obtain ⟨m', hm', hp⟩ := hstep
    obtain rfl := Option.some.inj (hm'.symm.trans hm)
    have hlt := Nat.lt_trans (hf.parent_lt hm hp) hm.lt_size
    obtain ⟨p, hpnode⟩ := exists_node?_of_lt hlt
    have hpid := hf.id_eq hpnode
    have hhas := hf.has hpnode
    exact (ih hhas hpid).tail ((hf.mem_children_iff hhas).2 ⟨hm, by rw [hpid]; exact hp⟩)

/-- What stands between a node and one of its children is below the node. -/
theorem InOrder.below_of_between (hf : f.InOrder) {n c m : Node} (hn : f.Has n)
    (hc : c ∈ f.children n) (hm : f.Has m) (hle : n.id ≤ m.id) (hlt : m.id < c.id) :
    f.Below n m := by
  obtain ⟨hchas, hp⟩ := (hf.mem_children_iff hn).1 hc
  exact hf.below_of_hangs hn hm (hf.preordered n.id c.id ⟨c, hchas, hp⟩ m.id hle hlt)

/-- The subtree of a child ends before the next child. -/
theorem InOrder.lt_sibling (hf : f.InOrder) {n c d m : Node} (hn : f.Has n)
    (hc : c ∈ f.children n) (hd : d ∈ f.children n) (hcd : c.id < d.id) (hm : f.Below c m) :
    m.id < d.id := by
  have hchas := hf.has_of_mem_children hc
  have hdhas := hf.has_of_mem_children hd
  induction hm with
  | refl => exact hcd
  | @tail b m hb hm ih =>
    have hbhas := hf.has_of_below hchas hb
    have hmhas := hf.has_of_mem_children hm
    by_contra hge
    -- the path from `c` would step over `d`, so `d` and its parent `n` would be below `b`
    have hbelow : f.Below b d := by
      rcases Nat.eq_or_lt_of_le (Nat.le_of_not_lt hge) with heq | hlt
      · rw [hdhas.ext hmhas heq]
        exact .single hm
      · exact hf.below_of_between hbhas hm hdhas (Nat.le_of_lt ih) hlt
    have hnb : b.id ≤ n.id := by
      cases hbelow with
      | refl => exact absurd ih (Nat.lt_irrefl _)
      | @tail p _ hbp hdp =>
        have hphas := hf.has_of_below hbhas hbp
        have hparent := (hf.parent?_eq_some_iff hdhas).2 ⟨hphas, hdp⟩
        rw [(hf.parent?_eq_some_iff hdhas).2 ⟨hn, hd⟩] at hparent
        rw [Option.some.inj hparent]
        exact hf.le_of_below hbhas hbp
    have := hf.le_of_below hchas hb
    have := hf.child_lt hn hc
    omega

/-! ## Walks -/

/-- A walk visits the nodes that it reaches through nodes it may enter. -/
theorem Linked.mem_preorder (hf : f.Linked) {enter : Node → Bool} {n m : Node} (hn : f.Has n) :
    m ∈ f.preorder enter n ↔ enter n = true ∧
      Relation.ReflTransGen (fun a b => b ∈ f.children a ∧ enter b = true) n m := by
  constructor
  · refine hf.leafInduction (P := fun n => m ∈ f.preorder enter n → enter n = true ∧
      Relation.ReflTransGen (fun a b => b ∈ f.children a ∧ enter b = true) n m) ?_ n hn
    intro n hn ih hm
    rw [hf.preorder_eq enter hn] at hm
    split at hm
    · next henter =>
      refine ⟨henter, ?_⟩
      rcases List.mem_cons.1 hm with rfl | hm
      · exact .refl
      · obtain ⟨c, hc, hm⟩ := List.mem_flatMap.1 hm
        obtain ⟨hcenter, hpath⟩ := ih c hc hm
        exact .head ⟨hc, hcenter⟩ hpath
    · cases hm
  · rintro ⟨henter, hpath⟩
    induction hpath using Relation.ReflTransGen.head_induction_on with
    | refl =>
      rw [hf.preorder_eq enter hn, if_pos henter]
      exact List.mem_cons_self
    | head hstep _ ih =>
      rw [hf.preorder_eq enter hn, if_pos henter]
      exact List.mem_cons_of_mem _ (List.mem_flatMap.2
        ⟨_, hstep.1, ih (hf.has_of_mem_children hstep.1) hstep.2⟩)

theorem Linked.children_pairwise (hf : f.Linked) {n : Node} (hn : f.Has n) :
    (f.children n).Pairwise (·.id < ·.id) := by
  rw [← List.pairwise_map (f := fun c : Node => c.id), hf.map_id_children hn]
  exact hf.sorted hn

/-- The ids of a walk increase. -/
theorem InOrder.preorder_pairwise (hf : f.InOrder) (enter : Node → Bool) {n : Node} (hn : f.Has n) :
    (f.preorder enter n).Pairwise (·.id < ·.id) := by
  refine hf.leafInduction (P := fun n => (f.preorder enter n).Pairwise (·.id < ·.id)) ?_ n hn
  intro n hn ih
  rw [hf.preorder_eq enter hn]
  split
  · refine List.pairwise_cons.2 ⟨fun m hm => ?_, List.pairwise_flatMap.2 ⟨ih, ?_⟩⟩
    · obtain ⟨c, hc, hm⟩ := List.mem_flatMap.1 hm
      have hchas := hf.has_of_mem_children hc
      exact Nat.lt_of_lt_of_le (hf.child_lt hn hc)
        (hf.le_of_below hchas (hf.below_of_mem_preorder hchas hm))
    · refine (hf.children_pairwise hn).imp_of_mem fun {c d} hc hd hcd => ?_
      intro a ha b hb
      have ha' := hf.below_of_mem_preorder (hf.has_of_mem_children hc) ha
      have hdhas := hf.has_of_mem_children hd
      exact Nat.lt_of_lt_of_le (hf.lt_sibling hn hc hd hcd ha')
        (hf.le_of_below hdhas (hf.below_of_mem_preorder hdhas hb))
  · exact List.Pairwise.nil

end SourceFile

end PhpAudit
