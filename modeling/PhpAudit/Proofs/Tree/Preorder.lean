import Mathlib.Data.Finset.Card
import PhpAudit.Proofs.Tree.Order

/-!
# What a walk visits, and in which order

A walk through a file lists everything that hangs from its start, however the arena is linked
(`mem_descendants`): a path without repetition has no more nodes than the arena, and the fuel of the walk
lasts for that many. From the root it meets a node before all that hangs from the node, and the subtree of a
child before those of the later children (`Precedes`). In a file in order this is the order of the ids.
-/

namespace PhpAudit.SourceFile

variable {f : SourceFile}

theorem preorderOnto_succ (fuel : Nat) (n : Node) :
    f.preorderOnto (fun _ => true) (fuel + 1) n [] =
      n :: (f.children n).flatMap fun c => f.preorderOnto (fun _ => true) fuel c [] := by
  rw [preorderOnto, if_pos rfl, foldr_preorderOnto]

/-! ## Visited nodes -/

theorem below_of_mem_preorderOnto {fuel : Nat} {n m : Node}
    (h : m ∈ f.preorderOnto (fun _ => true) fuel n []) : f.Below n m := by
  induction fuel generalizing n with
  | zero => cases h
  | succ fuel ih =>
    rw [preorderOnto_succ] at h
    rcases List.mem_cons.1 h with rfl | h
    · exact .refl
    · obtain ⟨c, hc, hm⟩ := List.mem_flatMap.1 h
      exact .head hc (ih hm)

/-- `m` is `n` or hangs from it by way of the given nodes. -/
def BelowThrough (f : SourceFile) (through : Finset Node) : Node → Node → Prop :=
  Relation.ReflTransGen fun n m => m ∈ f.children n ∧ m ∈ through

/-- No path has to come back to its start. -/
theorem BelowThrough.erase {through : Finset Node} {n m : Node} (h : f.BelowThrough through n m) :
    f.BelowThrough (through.erase n) n m := by
  induction h with
  | refl => exact .refl
  | @tail _ m _ hm ih =>
    by_cases heq : m = n
    · rw [heq]
      exact .refl
    · exact ih.tail ⟨hm.1, Finset.mem_erase.2 ⟨heq, hm.2⟩⟩

/-- A walk with fuel for its start and the given nodes finds everything below by way of them. -/
theorem BelowThrough.mem_preorderOnto {through : Finset Node} {fuel : Nat} {n m : Node}
    (hfuel : through.card < fuel) (h : f.BelowThrough through n m) :
    m ∈ f.preorderOnto (fun _ => true) fuel n [] := by
  induction fuel generalizing through n with
  | zero => omega
  | succ fuel ih =>
    rw [preorderOnto_succ]
    rcases Relation.ReflTransGen.cases_head h with rfl | ⟨c, ⟨hc, hthrough⟩, hm⟩
    · exact List.mem_cons_self
    · have hcard := Finset.card_erase_lt_of_mem hthrough
      exact List.mem_cons_of_mem _ (List.mem_flatMap.2
        ⟨c, hc, ih (by omega) (BelowThrough.erase hm)⟩)

/-- `descendants` lists exactly the nodes below a node of the arena. -/
theorem mem_descendants {i : Nat} {n m : Node} (hn : f.node? i = some n) :
    m ∈ f.descendants n ↔ f.Below n m := by
  have mem_nodes : ∀ {i m}, f.node? i = some m → m ∈ f.nodes.toList.toFinset := by
    intro i m hm
    rw [List.mem_toFinset]
    exact Array.mem_toList_iff.2 (Array.mem_of_getElem? hm)
  refine ⟨below_of_mem_preorderOnto, fun h => ?_⟩
  have hall : f.BelowThrough f.nodes.toList.toFinset n m := by
    refine Relation.ReflTransGen.mono (fun a b hb => ⟨hb, ?_⟩) _ _ h
    obtain ⟨i, -, hi⟩ := List.mem_filterMap.1 hb
    exact mem_nodes hi
  refine BelowThrough.mem_preorderOnto ?_ hall.erase
  exact Nat.lt_of_lt_of_le (Finset.card_erase_lt_of_mem (mem_nodes hn)) (List.toFinset_card_le _)

theorem rooted_iff {root n : Node} (hroot : f.root? = some root) :
    f.Rooted n ↔ n ∈ f.descendants root := by
  rw [mem_descendants hroot]
  constructor
  · rintro ⟨root', hroot', hbelow⟩
    obtain rfl := Option.some.inj (hroot.symm.trans hroot')
    exact hbelow
  · exact fun hbelow => ⟨root, hroot, hbelow⟩

/-! ## The order of the visits -/

/-- In the tree of the root, `n` comes before `m`: it is above `m`, or the two are in the subtrees of different
children of one node, and the child of `n` is listed first. -/
inductive Precedes (f : SourceFile) : Node → Node → Prop
  | above {n c m : Node} (hn : f.Rooted n) (hc : c ∈ f.children n) (hm : f.Below c m) : Precedes f n m
  | aside {p c d n m : Node} (hp : f.Rooted p) (hcd : [c, d].Sublist (f.children p)) (hn : f.Below c n)
      (hm : f.Below d m) : Precedes f n m

theorem Rooted.pairwise_preorderOnto {n : Node} (hn : f.Rooted n) (fuel : Nat) :
    (f.preorderOnto (fun _ => true) fuel n []).Pairwise f.Precedes := by
  induction fuel generalizing n with
  | zero => exact .nil
  | succ fuel ih =>
    rw [preorderOnto_succ]
    refine List.pairwise_cons.2 ⟨fun m hm => ?_, List.pairwise_flatMap.2 ⟨fun c hc => ih (hn.child hc), ?_⟩⟩
    · obtain ⟨c, hc, hm⟩ := List.mem_flatMap.1 hm
      exact .above hn hc (below_of_mem_preorderOnto hm)
    · refine List.pairwise_iff_forall_sublist.2 fun hcd a ha b hb => ?_
      exact .aside hn hcd (below_of_mem_preorderOnto ha) (below_of_mem_preorderOnto hb)

/-- What a search in preorder finds comes before everything else that it could find. -/
theorem precedes_of_find? {p : Node → Bool} {root n m : Node} (hroot : f.root? = some root)
    (hfind : (f.descendants root).find? p = some n) (hm : f.Rooted m) (hp : p m = true) :
    m = n ∨ f.Precedes n m := by
  obtain ⟨-, before, behind, hsplit, hbefore⟩ := List.find?_eq_some_iff_append.1 hfind
  have hpairwise : (f.descendants root).Pairwise f.Precedes := (rooted_root hroot).pairwise_preorderOnto _
  have hmem := (rooted_iff hroot).1 hm
  rw [hsplit] at hpairwise hmem
  rcases List.mem_append.1 hmem with hmem | hmem
  · simpa [hp] using hbefore m hmem
  · refine (List.mem_cons.1 hmem).imp_right fun hmem => ?_
    exact (List.pairwise_cons.1 (List.pairwise_append.1 hpairwise).2.1).1 m hmem

/-- In a file in order, what comes first has the smaller id. -/
theorem InOrder.lt_of_precedes (hf : f.InOrder) {n m : Node} (h : f.Precedes n m) : n.id < m.id := by
  cases h with
  | above hn hc hm =>
    have hlt := hf.child_lt (hf.has_of_rooted hn) hc
    exact Nat.lt_of_lt_of_le hlt (hf.le_of_below (hf.has_of_mem_children hc) hm)
  | @aside p c d _ _ hp hcd hn hm =>
    have hhas := hf.has_of_rooted hp
    have hlt : c.id < d.id := by
      simpa using List.Pairwise.sublist hcd (hf.children_pairwise hhas)
    have hc : c ∈ f.children p := hcd.subset (by simp)
    have hd : d ∈ f.children p := hcd.subset (by simp)
    exact Nat.lt_of_lt_of_le (hf.lt_sibling hhas hc hd hlt hn) (hf.le_of_below (hf.has_of_mem_children hd) hm)

end PhpAudit.SourceFile
