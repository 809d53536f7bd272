import Mathlib.Data.List.Basic
import Mathlib.Logic.Relation
import PhpAudit.Proofs.Tree.Arena

/-!
# Walks through a linked file

In a linked file a step to a child raises the id and a step to the parent lowers it. So the fuel of the
walks never runs out: `trail_cons` and `preorder_eq` are the equations the walks would have without
fuel. `descendants` lists exactly the nodes below a node (`mem_descendants`), and the nodes that hang
from the root are closed under every step (`Rooted`).
-/

namespace PhpAudit.SourceFile

variable {f : SourceFile}

/-! ## Single steps -/

theorem Linked.has_of_mem_children (hf : f.Linked) {n m : Node} (h : m ∈ f.children n) : f.Has m := by
  obtain ⟨c, -, hc⟩ := List.mem_filterMap.1 h
  exact hf.has hc

/-- The children of a node are the nodes that name it as their parent. -/
theorem Linked.mem_children_iff (hf : f.Linked) {n m : Node} (hn : f.Has n) :
    m ∈ f.children n ↔ f.Has m ∧ m.parent = some n.id := by
  unfold SourceFile.children
  rw [List.mem_filterMap]
  constructor
  · rintro ⟨c, hc, hm⟩
    obtain ⟨k, hk, hkp⟩ := (hf.mem_children hn c).1 hc
    rw [hm] at hk
    obtain rfl := Option.some.inj hk
    exact ⟨hf.has hm, hkp⟩
  · rintro ⟨hm, hp⟩
    exact ⟨m.id, (hf.mem_children hn m.id).2 ⟨m, hm, hp⟩, hm⟩

theorem Linked.map_id_children (hf : f.Linked) {n : Node} (hn : f.Has n) :
    (f.children n).map (·.id) = n.children := by
  unfold SourceFile.children
  rw [List.map_filterMap]
  refine Eq.trans (List.filterMap_congr fun c hc => ?_) (List.filterMap_some)
  obtain ⟨m, hm, -⟩ := (hf.mem_children hn c).1 hc
  rw [hm, Option.map_some, hf.id_eq hm]

theorem Linked.child_lt (hf : f.Linked) {n m : Node} (hn : f.Has n) (h : m ∈ f.children n) :
    n.id < m.id := by
  obtain ⟨hm, hp⟩ := (hf.mem_children_iff hn).1 h
  exact hf.parent_lt hm hp

theorem Linked.has_of_parent? (hf : f.Linked) {n p : Node} (h : f.parent? n = some p) : f.Has p := by
  obtain ⟨i, -, hi⟩ := Option.bind_eq_some_iff.1 h
  exact hf.has hi

theorem Linked.parent?_lt (hf : f.Linked) {n p : Node} (hn : f.Has n) (h : f.parent? n = some p) :
    p.id < n.id := by
  obtain ⟨i, hi, hp⟩ := Option.bind_eq_some_iff.1 h
  rw [hf.id_eq hp]
  exact hf.parent_lt hn hi

theorem Linked.parent?_eq_some_iff (hf : f.Linked) {n p : Node} (hn : f.Has n) :
    f.parent? n = some p ↔ f.Has p ∧ n ∈ f.children p := by
  constructor
  · intro h
    have hp := hf.has_of_parent? h
    obtain ⟨i, hi, hpi⟩ := Option.bind_eq_some_iff.1 h
    refine ⟨hp, (hf.mem_children_iff hp).2 ⟨hn, ?_⟩⟩
    rw [hi, hf.id_eq hpi]
  · rintro ⟨hp, hc⟩
    unfold parent?
    rw [((hf.mem_children_iff hp).1 hc).2]
    exact hp

theorem mem_children_of_child? {n m : Node} {field : String} (h : f.child? n field = some m) :
    m ∈ f.children n :=
  List.mem_of_find?_eq_some h

theorem mem_children_of_firstOf? {n m : Node} {kind : Kind} (h : f.firstOf? n kind = some m) :
    m ∈ f.children n :=
  List.mem_of_find?_eq_some h

/-- A step that leads from a node of the file to one of its children. -/
def Descends (f : SourceFile) (step : Node → Option Node) : Prop :=
  ∀ {n m}, step n = some m → m ∈ f.children n

/-- Induction from the leaves of a linked file upwards. -/
theorem Linked.leafInduction (hf : f.Linked) {P : Node → Prop}
    (step : ∀ n, f.Has n → (∀ m ∈ f.children n, P m) → P n) : ∀ n, f.Has n → P n := by
  have go : ∀ (k : Nat) (n : Node), f.Has n → f.size - n.id ≤ k → P n := by
    intro k
    induction k with
    | zero => intro n hn hk; have := hn.lt_size; omega
    | succ k ih =>
      intro n hn hk
      refine step n hn fun m hm => ih m (hf.has_of_mem_children hm) ?_
      have := hf.child_lt hn hm
      omega
  exact fun n hn => go _ n hn (Nat.le_refl _)

/-- Induction from the root of a linked file downwards. -/
theorem Linked.rootInduction (hf : f.Linked) {P : Node → Prop}
    (step : ∀ n, f.Has n → (∀ p, f.parent? n = some p → P p) → P n) : ∀ n, f.Has n → P n := by
  have go : ∀ (k : Nat) (n : Node), f.Has n → n.id < k → P n := by
    intro k
    induction k with
    | zero => intro n _ hk; omega
    | succ k ih =>
      intro n hn hk
      refine step n hn fun p hp => ih p (hf.has_of_parent? hp) ?_
      have := hf.parent?_lt hn hp
      omega
  exact fun n hn => go _ n hn (Nat.lt_succ_self _)

/-! ## Trails -/

/-- A trail along which `μ` falls does not depend on its fuel. -/
theorem trailFrom_fuel {step : Node → Option Node} {P : Node → Prop} {μ : Node → Nat}
    (hstep : ∀ {n m}, P n → step n = some m → P m ∧ μ m < μ n) {k fuel : Nat} {n : Node}
    (hn : P n) (hk : μ n ≤ k) (hfuel : μ n ≤ fuel) :
    trailFrom step fuel n = trailFrom step k n := by
  induction k generalizing fuel n with
  | zero =>
    cases hs : step n with
    | none => cases fuel <;> simp [trailFrom, hs]
    | some m => have := (hstep hn hs).2; omega
  | succ k ih =>
    cases hs : step n with
    | none => cases fuel <;> simp [trailFrom, hs]
    | some m =>
      obtain ⟨hm, hlt⟩ := hstep hn hs
      cases fuel with
      | zero => omega
      | succ fuel =>
        simp only [trailFrom, hs]
        rw [ih hm (by omega) (by omega)]

section Trail
variable {step : Node → Option Node} {P : Node → Prop} {μ : Node → Nat}
  (hstep : ∀ {n m}, P n → step n = some m → P m ∧ μ m < μ n)
  (hμ : ∀ {n}, P n → μ n ≤ f.size)

include hstep hμ in
/-- The equation of a trail along which `μ` falls from at most the size of the file. -/
theorem trail_cons {n : Node} (hn : P n) :
    f.trail step n = n :: ((step n).map (f.trail step)).getD [] := by
  have hbound := hμ hn
  unfold trail
  cases hs : step n with
  | none => cases f.size <;> simp [trailFrom, hs]
  | some m =>
    obtain ⟨hm, hlt⟩ := hstep hn hs
    cases hsize : f.size with
    | zero => omega
    | succ k =>
      have hunfold : trailFrom step (k + 1) n = n :: trailFrom step k m := by
        simp only [trailFrom, hs]
      have hfuel : trailFrom step k m = trailFrom step (k + 1) m :=
        trailFrom_fuel hstep hm (by omega) (by omega)
      rw [hunfold, hfuel, Option.map_some, Option.getD_some]

end Trail

theorem Linked.descends_measure (hf : f.Linked) {step : Node → Option Node} (hd : f.Descends step) :
    ∀ {n m}, f.Has n → step n = some m → f.Has m ∧ f.size - m.id < f.size - n.id := by
  intro n m hn hs
  have hm := hf.has_of_mem_children (hd hs)
  have := hf.child_lt hn (hd hs)
  have := hm.lt_size
  exact ⟨hm, by omega⟩

theorem Linked.parent?_measure (hf : f.Linked) :
    ∀ {n m}, f.Has n → f.parent? n = some m → f.Has m ∧ m.id < n.id :=
  fun hn h => ⟨hf.has_of_parent? h, hf.parent?_lt hn h⟩

theorem Linked.trail_parent? (hf : f.Linked) {n : Node} (hn : f.Has n) :
    f.trail f.parent? n = n :: ((f.parent? n).map (f.trail f.parent?)).getD [] :=
  trail_cons hf.parent?_measure (fun hn => Nat.le_of_lt hn.lt_size) hn

/-- The nodes around a node: its parent and those around the parent. -/
theorem Linked.ancestors_eq (hf : f.Linked) {n : Node} (hn : f.Has n) :
    f.ancestors n = ((f.parent? n).map fun p => p :: f.ancestors p).getD [] := by
  unfold ancestors
  rw [hf.trail_parent? hn]
  cases hp : f.parent? n with
  | none => rfl
  | some p =>
    simp only [Option.map_some, Option.getD_some, List.tail_cons]
    rw [hf.trail_parent? (hf.has_of_parent? hp)]
    rfl

/-- Every node of a trail satisfies what its start satisfies and its steps preserve. -/
theorem trailFrom_forall {step : Node → Option Node} {P : Node → Prop}
    (hstep : ∀ {n m}, P n → step n = some m → P m) {fuel : Nat} {n : Node} (hn : P n) :
    ∀ m ∈ trailFrom step fuel n, P m := by
  induction fuel generalizing n with
  | zero => intro m hm; rw [List.mem_singleton.1 hm]; exact hn
  | succ fuel ih =>
    intro m hm
    unfold trailFrom at hm
    split at hm
    · rw [List.mem_singleton.1 hm]; exact hn
    · next next hs =>
      rcases List.mem_cons.1 hm with rfl | hm
      · exact hn
      · exact ih (hstep hn hs) m hm

/-! ## Preorder walks -/

theorem foldr_preorderOnto_congr {enter : Node → Bool} {fuel k : Nat} {ms : List Node}
    (h : ∀ m ∈ ms, ∀ rest, f.preorderOnto enter fuel m rest = f.preorderOnto enter k m rest)
    (rest : List Node) :
    ms.foldr (f.preorderOnto enter fuel) rest = ms.foldr (f.preorderOnto enter k) rest := by
  induction ms with
  | nil => rfl
  | cons m ms ih =>
    simp only [List.foldr_cons]
    rw [ih (fun m' hm' => h m' (List.mem_cons_of_mem _ hm')), h m List.mem_cons_self]

/-- A walk that has fuel for the nodes behind its start does not depend on it. -/
theorem Linked.preorderOnto_fuel (hf : f.Linked) {enter : Node → Bool} {n : Node} (hn : f.Has n) :
    ∀ {fuel k : Nat} (rest : List Node), f.size - n.id ≤ fuel → f.size - n.id ≤ k →
      f.preorderOnto enter fuel n rest = f.preorderOnto enter k n rest := by
  refine hf.leafInduction (P := fun n => ∀ {fuel k : Nat} (rest : List Node),
    f.size - n.id ≤ fuel → f.size - n.id ≤ k →
      f.preorderOnto enter fuel n rest = f.preorderOnto enter k n rest) ?_ n hn
  intro n hn ih fuel k rest hfuel hk
  have hlt := hn.lt_size
  cases fuel with
  | zero => omega
  | succ fuel =>
    cases k with
    | zero => omega
    | succ k =>
      simp only [preorderOnto]
      have hchildren : ∀ m ∈ f.children n, ∀ rest,
          f.preorderOnto enter fuel m rest = f.preorderOnto enter k m rest := by
        intro m hm rest
        have := hf.child_lt hn hm
        exact ih m hm rest (by omega) (by omega)
      rw [foldr_preorderOnto_congr hchildren]

theorem preorderOnto_append (enter : Node → Bool) (fuel : Nat) (n : Node) (rest : List Node) :
    f.preorderOnto enter fuel n rest = f.preorderOnto enter fuel n [] ++ rest := by
  induction fuel generalizing n rest with
  | zero => rfl
  | succ fuel ih =>
    have hfold : ∀ (ms rest : List Node), ms.foldr (f.preorderOnto enter fuel) rest =
        ms.foldr (f.preorderOnto enter fuel) [] ++ rest := by
      intro ms
      induction ms with
      | nil => intro rest; rfl
      | cons m ms ihm =>
        intro rest
        simp only [List.foldr_cons]
        rw [ih m (List.foldr _ _ ms), ih m (ms.foldr _ []), ihm rest, List.append_assoc]
    unfold preorderOnto
    split
    · rw [hfold, List.cons_append]
    · rfl

theorem foldr_preorderOnto (enter : Node → Bool) (fuel : Nat) (ms : List Node) :
    ms.foldr (f.preorderOnto enter fuel) [] = ms.flatMap fun m => f.preorderOnto enter fuel m [] := by
  induction ms with
  | nil => rfl
  | cons m ms ih => rw [List.foldr_cons, preorderOnto_append, ih, List.flatMap_cons]

/-- The equation of a preorder walk. -/
theorem Linked.preorder_eq (hf : f.Linked) (enter : Node → Bool) {n : Node} (hn : f.Has n) :
    f.preorder enter n =
      if enter n then n :: (f.children n).flatMap (f.preorder enter) else [] := by
  have hlt := hn.lt_size
  unfold preorder
  rw [hf.preorderOnto_fuel hn (k := f.size + 1) [] (by omega) (by omega)]
  simp only [preorderOnto]
  rw [foldr_preorderOnto]

/-! ## Nodes below a node -/

/-- `m` is `n` or hangs from it. -/
def Below (f : SourceFile) : Node → Node → Prop :=
  Relation.ReflTransGen fun n m => m ∈ f.children n

theorem Linked.has_of_below (hf : f.Linked) {n m : Node} (hn : f.Has n) (h : f.Below n m) :
    f.Has m := by
  cases h with
  | refl => exact hn
  | tail _ hm => exact hf.has_of_mem_children hm

theorem Linked.below_of_mem_preorder (hf : f.Linked) {enter : Node → Bool} {n m : Node}
    (hn : f.Has n) (h : m ∈ f.preorder enter n) : f.Below n m := by
  refine hf.leafInduction (P := fun n => m ∈ f.preorder enter n → f.Below n m) ?_ n hn h
  intro n hn ih h
  rw [hf.preorder_eq enter hn] at h
  split at h
  · rcases List.mem_cons.1 h with rfl | h
    · exact .refl
    · obtain ⟨c, hc, hm⟩ := List.mem_flatMap.1 h
      exact .head hc (ih c hc hm)
  · cases h

/-- `descendants` lists exactly the nodes below a node. -/
theorem Linked.mem_descendants (hf : f.Linked) {n m : Node} (hn : f.Has n) :
    m ∈ f.descendants n ↔ f.Below n m := by
  constructor
  · exact hf.below_of_mem_preorder hn
  · intro h
    induction h using Relation.ReflTransGen.head_induction_on with
    | refl =>
      rw [descendants, hf.preorder_eq _ hn]
      exact List.mem_cons_self
    | head hc _ ih =>
      rw [descendants, hf.preorder_eq _ hn]
      exact List.mem_cons_of_mem _
        (List.mem_flatMap.2 ⟨_, hc, ih (hf.has_of_mem_children hc)⟩)

/-! ## The tree of the root -/

/-- The node hangs from the root of the file. -/
def Rooted (f : SourceFile) (n : Node) : Prop :=
  ∃ root, f.root? = some root ∧ f.Below root n

theorem Linked.has_of_rooted (hf : f.Linked) {n : Node} (h : f.Rooted n) : f.Has n := by
  obtain ⟨root, hroot, hb⟩ := h
  exact hf.has_of_below (hf.has hroot) hb

theorem rooted_root {root : Node} (h : f.root? = some root) : f.Rooted root :=
  ⟨root, h, .refl⟩

theorem Rooted.below {n m : Node} (h : f.Rooted n) (hm : f.Below n m) : f.Rooted m := by
  obtain ⟨root, hroot, hb⟩ := h
  exact ⟨root, hroot, hb.trans hm⟩

theorem Rooted.child {n m : Node} (h : f.Rooted n) (hm : m ∈ f.children n) : f.Rooted m :=
  h.below (.single hm)

/-- The way up from a node below the root passes through nodes below the root. -/
theorem Rooted.parent (hf : f.Linked) {n p : Node} (h : f.Rooted n) (hp : f.parent? n = some p) :
    f.Rooted p := by
  have hn := hf.has_of_rooted h
  obtain ⟨root, hroot, hb⟩ := h
  cases hb with
  | refl =>
    have := hf.parent?_lt hn hp
    rw [hf.id_eq hroot] at this
    omega
  | tail hb hm =>
    have hq := hf.has_of_below (hf.has hroot) hb
    rw [(hf.parent?_eq_some_iff hn).2 ⟨hq, hm⟩] at hp
    obtain rfl := Option.some.inj hp
    exact ⟨root, hroot, hb⟩

/-- The nodes that hang from the root are those a walk from it visits. -/
theorem Linked.rooted_iff (hf : f.Linked) {root n : Node} (hroot : f.root? = some root) :
    f.Rooted n ↔ n ∈ f.descendants root := by
  rw [hf.mem_descendants (hf.has hroot)]
  constructor
  · rintro ⟨r, hr, hb⟩
    rw [hroot] at hr
    rw [Option.some.inj hr]
    exact hb
  · exact fun h => ⟨root, hroot, h⟩

end PhpAudit.SourceFile
