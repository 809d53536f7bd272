import Mathlib.Logic.Relation
import PhpAudit.Proofs.Hierarchy.Lookup

/-!
# Subclasses are what links reach

`Super` is one link from a class to a name that it extends or implements; names count up to their keys.
`isSubclassOf_iff` says that the breadth-first search finds a class exactly if one or more links lead to
it. The search ends because each name in the queue is there for a link of its own, and the links of a
class are followed once: `load` counts the links that are still to be followed.
-/

namespace PhpAudit.Hierarchy

variable {h : Hierarchy}

/-- A declared class `a` extends or implements `b`. -/
def Super (h : Hierarchy) (a b : String) : Prop :=
  ∃ s ∈ h.supersOf a, ClassName.key s = ClassName.key b

theorem supersOf_congr {a b : String} (hk : ClassName.key a = ClassName.key b) :
    h.supersOf a = h.supersOf b := by
  unfold supersOf get?
  rw [hk]

theorem any_same_iff {names : List String} {target : String} :
    names.any (ClassName.same · target) = true ↔
      ∃ s ∈ names, ClassName.key s = ClassName.key target := by
  simp [List.any_eq_true, ClassName.same_eq]

/-! ## New names -/

theorem mem_of_mem_fresh {seen names : List String} {name : String}
    (h : name ∈ (fresh seen names).2) : name ∈ names := by
  induction names generalizing seen with
  | nil => cases h
  | cons n names ih =>
    unfold fresh at h
    split at h
    · exact List.mem_cons_of_mem _ (ih h)
    · rcases List.mem_cons.1 h with rfl | h
      · exact List.mem_cons_self
      · exact List.mem_cons_of_mem _ (ih h)

/-- What `fresh` leaves behind: names with new and different keys, and all keys it has met. -/
structure Freshened (seen names : List String) (result : List String × List String) : Prop where
  nodup : (result.2.map ClassName.key).Nodup
  new : ∀ k ∈ result.2.map ClassName.key, k ∉ seen
  mem_iff : ∀ k, k ∈ result.1 ↔ k ∈ seen ∨ k ∈ result.2.map ClassName.key
  covers : ∀ s ∈ names, ClassName.key s ∈ result.1
  length_le : result.2.length ≤ names.length

theorem freshened (seen names : List String) : Freshened seen names (fresh seen names) := by
  induction names generalizing seen with
  | nil => exact ⟨List.nodup_nil, by simp [fresh], by simp [fresh], by simp, Nat.le_refl _⟩
  | cons name names ih =>
    unfold fresh
    split
    · next hseen =>
      have hmem : ClassName.key name ∈ seen := by simpa using hseen
      obtain ⟨hnodup, hnew, hiff, hcovers, hlen⟩ := ih seen
      refine ⟨hnodup, hnew, hiff, ?_, Nat.le_succ_of_le hlen⟩
      intro s hs
      rcases List.mem_cons.1 hs with rfl | hs
      · exact (hiff _).2 (.inl hmem)
      · exact hcovers s hs
    · next hseen =>
      have hmem : ClassName.key name ∉ seen := by simpa using hseen
      obtain ⟨hnodup, hnew, hiff, hcovers, hlen⟩ := ih (ClassName.key name :: seen)
      refine ⟨?_, ?_, ?_, ?_, Nat.succ_le_succ hlen⟩
      · rw [List.map_cons, List.nodup_cons]
        exact ⟨fun hin => hnew _ hin List.mem_cons_self, hnodup⟩
      · intro k hk
        rcases List.mem_cons.1 hk with rfl | hk
        · exact hmem
        · exact fun hin => hnew k hk (List.mem_cons_of_mem _ hin)
      · intro k
        rw [hiff, List.mem_cons, List.map_cons, List.mem_cons]
        constructor
        · rintro ((rfl | hk) | hk)
          · exact .inr (.inl rfl)
          · exact .inl hk
          · exact .inr (.inr hk)
        · rintro (hk | rfl | hk)
          · exact .inl (.inr hk)
          · exact .inl (.inl rfl)
          · exact .inr hk
      · intro s hs
        rcases List.mem_cons.1 hs with rfl | hs
        · exact (hiff _).2 (.inl List.mem_cons_self)
        · exact hcovers s hs

/-- One step of the search. -/
theorem searchUp_cons (target : String) (fuel : Nat) (seen : List String) (name : String)
    (queue : List String) :
    h.searchUp target (fuel + 1) seen (name :: queue) =
      ((h.supersOf name).any (ClassName.same · target) ||
        h.searchUp target fuel (fresh seen (h.supersOf name)).1
          (queue ++ (fresh seen (h.supersOf name)).2)) := by
  simp only [searchUp]
  cases (h.supersOf name).any (ClassName.same · target) <;> rfl

/-! ## A search that finds its target -/

theorem super_of_searchUp {target : String} {fuel : Nat} {seen queue : List String}
    (hs : h.searchUp target fuel seen queue = true) :
    ∃ q ∈ queue, Relation.TransGen h.Super q target := by
  induction fuel generalizing seen queue with
  | zero => cases hs
  | succ fuel ih =>
    cases queue with
    | nil => cases hs
    | cons name queue =>
      rw [searchUp_cons, Bool.or_eq_true] at hs
      rcases hs with hany | hs
      · exact ⟨name, List.mem_cons_self, .single (any_same_iff.1 hany)⟩
      · obtain ⟨q, hq, hpath⟩ := ih hs
        rcases List.mem_append.1 hq with hq | hq
        · exact ⟨q, List.mem_cons_of_mem _ hq, hpath⟩
        · exact ⟨name, List.mem_cons_self, .head ⟨q, mem_of_mem_fresh hq, rfl⟩ hpath⟩

/-! ## A search that does not -/

/-- The number of links from the classes of a table whose keys are not `done`. -/
def loadOf (done : List String) : List (String × ClassInfo) → Nat
  | [] => 0
  | e :: entries => (if done.contains e.1 then 0 else e.2.supers.length) + loadOf done entries

theorem loadOf_step {key : String} {done : List String} (hnew : key ∉ done)
    (entries : List (String × ClassInfo)) :
    loadOf (key :: done) entries + (((entries.lookup key).map (·.supers)).getD []).length ≤
      loadOf done entries := by
  induction entries with
  | nil => exact Nat.le_refl _
  | cons e entries ih =>
    obtain ⟨ek, ec⟩ := e
    simp only [loadOf, List.lookup_cons]
    cases hk : key == ek with
    | true =>
      obtain rfl : key = ek := by simpa using hk
      simp only [List.contains_cons, beq_self_eq_true, Bool.true_or, if_true, Option.map_some,
        Option.getD_some, List.contains_iff_mem, hnew, if_false]
      omega
    | false =>
      have hne : (ek == key) = false := by
        rw [beq_eq_false_iff_ne] at hk ⊢
        exact fun h => hk h.symm
      simp only [List.contains_cons, hne, Bool.false_or]
      omega

/-- The links that are still to be followed when the classes with the keys `done` have been expanded. -/
def load (h : Hierarchy) (done : List String) : Nat := loadOf done h.classes

theorem linkCount_eq_load (h : Hierarchy) : h.linkCount = h.load [] := by
  have hsum : ∀ (entries : List (String × ClassInfo)) (n : Nat),
      (entries.map (·.2)).foldl (fun n c => n + c.supers.length) n = n + loadOf [] entries := by
    intro entries
    induction entries with
    | nil => intro n; simp [loadOf]
    | cons e entries ih =>
      intro n
      rw [List.map_cons, List.foldl_cons, ih]
      simp only [loadOf, List.contains_nil, Bool.false_eq_true, if_false]
      omega
  simpa [linkCount, toList, load] using hsum h.classes 0

/-- Keys that all links lead back into, without a link to the target. -/
def Closed (h : Hierarchy) (target : String) (keys : List String) : Prop :=
  ∀ name, ClassName.key name ∈ keys → ∀ s ∈ h.supersOf name,
    ClassName.key s ∈ keys ∧ ClassName.key s ≠ ClassName.key target

theorem Closed.not_super {target : String} {keys : List String} (hc : h.Closed target keys)
    {name : String} (hn : ClassName.key name ∈ keys) : ¬ Relation.TransGen h.Super name target := by
  intro hpath
  induction hpath using Relation.TransGen.head_induction_on with
  | single hs =>
    obtain ⟨s, hs, hk⟩ := hs
    exact (hc _ hn s hs).2 hk
  | head hs _ ih =>
    obtain ⟨s, hs, hk⟩ := hs
    exact ih (hk ▸ (hc _ hn s hs).1)

/-- A search under way: no key waits twice or leaves the queue twice, and the keys seen are those that wait
or have left. `done` are the keys of the names that have left the queue. -/
structure Frontier (seen queue done : List String) : Prop where
  nodup : (done ++ queue.map ClassName.key).Nodup
  seen_iff : ∀ k, k ∈ seen ↔ k ∈ done ∨ k ∈ queue.map ClassName.key

theorem Frontier.start (name : String) : Frontier [ClassName.key name] [name] [] :=
  ⟨by simp, by simp⟩

/-- The first name leaves the queue, and what is new among `names` joins it. -/
theorem Frontier.next {seen queue done : List String} {name : String}
    (hfr : Frontier seen (name :: queue) done) (names : List String) :
    Frontier (fresh seen names).1 (queue ++ (fresh seen names).2) (ClassName.key name :: done) := by
  obtain ⟨fnodup, fnew, fiff, -, -⟩ := freshened seen names
  generalize fresh seen names = result at fnodup fnew fiff
  obtain ⟨seen', added⟩ := result
  simp only at fnodup fnew fiff
  refine ⟨?_, fun k => ?_⟩
  · have hperm : (ClassName.key name :: done ++ (queue ++ added).map ClassName.key).Perm
        ((done ++ (name :: queue).map ClassName.key) ++ added.map ClassName.key) := by
      rw [List.map_append, List.map_cons, ← List.append_assoc]
      refine List.Perm.append_right _ ?_
      exact List.perm_middle.symm
    rw [hperm.nodup_iff, List.nodup_append]
    refine ⟨hfr.nodup, fnodup, ?_⟩
    rintro a ha b hb rfl
    exact fnew a hb ((hfr.seen_iff a).2 (List.mem_append.1 ha))
  · rw [fiff, hfr.seen_iff, List.map_append, List.mem_append, List.map_cons, List.mem_cons,
      List.mem_cons]
    simp only [or_assoc, or_left_comm]

/-- The names that wait and the links that are still to be followed become fewer. -/
theorem Frontier.load_lt {seen queue done : List String} {name : String}
    (hfr : Frontier seen (name :: queue) done) :
    (queue ++ (fresh seen (h.supersOf name)).2).length + h.load (ClassName.key name :: done) <
      (name :: queue).length + h.load done := by
  have hkey : ClassName.key name ∉ done := fun hin =>
    (List.nodup_append.1 hfr.nodup).2.2 _ hin _ (by simp) rfl
  have hload : h.load (ClassName.key name :: done) + (h.supersOf name).length ≤ h.load done :=
    loadOf_step hkey h.classes
  have hlen := (freshened seen (h.supersOf name)).length_le
  rw [List.length_append, List.length_cons]
  omega

/-- A search that answers no has closed the keys it has seen. -/
theorem closed_of_searchUp {target : String} {fuel : Nat} {seen queue done : List String}
    (hfr : Frontier seen queue done)
    (hdone : ∀ name, ClassName.key name ∈ done → ∀ s ∈ h.supersOf name,
      ClassName.key s ∈ seen ∧ ClassName.key s ≠ ClassName.key target)
    (hfuel : queue.length + h.load done < fuel)
    (hs : h.searchUp target fuel seen queue = false) :
    ∃ keys, (∀ k ∈ seen, k ∈ keys) ∧ h.Closed target keys := by
  induction fuel generalizing seen queue done with
  | zero => omega
  | succ fuel ih =>
    cases queue with
    | nil =>
      refine ⟨seen, fun k hk => hk, fun name hname => hdone name ?_⟩
      exact ((hfr.seen_iff _).1 hname).resolve_right (by simp)
    | cons name queue =>
      rw [searchUp_cons, Bool.or_eq_false_iff] at hs
      obtain ⟨hany, hs⟩ := hs
      have hfresh := freshened seen (h.supersOf name)
      have hsub : ∀ k ∈ seen, k ∈ (fresh seen (h.supersOf name)).1 :=
        fun k hk => (hfresh.mem_iff k).2 (.inl hk)
      -- with this name's key among the expanded ones
      have hdone' : ∀ name', ClassName.key name' ∈ ClassName.key name :: done →
          ∀ s ∈ h.supersOf name', ClassName.key s ∈ (fresh seen (h.supersOf name)).1 ∧
            ClassName.key s ≠ ClassName.key target := by
        intro name' hname' s hs'
        rcases List.mem_cons.1 hname' with heq | hname'
        · rw [supersOf_congr heq] at hs'
          refine ⟨hfresh.covers s hs', fun htarget => ?_⟩
          rw [any_same_iff.2 ⟨s, hs', htarget⟩] at hany
          cases hany
        · exact (hdone name' hname' s hs').imp_left (hsub _)
      have hload := hfr.load_lt (h := h)
      obtain ⟨keys, hkeys, hclosed⟩ := ih (hfr.next _) hdone' (by omega) hs
      exact ⟨keys, fun k hk => hkeys k (hsub k hk), hclosed⟩

/-- A class is a subclass exactly if one or more links lead from it to the other. -/
theorem isSubclassOf_iff (h : Hierarchy) (name target : String) :
    h.isSubclassOf name target = true ↔ Relation.TransGen h.Super name target := by
  unfold isSubclassOf
  constructor
  · intro hs
    obtain ⟨q, hq, hpath⟩ := super_of_searchUp hs
    rw [List.mem_singleton.1 hq] at hpath
    exact hpath
  · intro hpath
    cases hs : h.searchUp target (h.linkCount + 2) [ClassName.key name] [name] with
    | true => rfl
    | false =>
      have hfuel : [name].length + h.load [] < h.linkCount + 2 := by
        rw [linkCount_eq_load, List.length_singleton]
        omega
      obtain ⟨keys, hkeys, hclosed⟩ := closed_of_searchUp (.start name) (by simp) hfuel hs
      exact absurd hpath (hclosed.not_super (hkeys _ List.mem_cons_self))

end PhpAudit.Hierarchy
