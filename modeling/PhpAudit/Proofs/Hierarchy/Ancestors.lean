import Mathlib.Data.List.Chain
import PhpAudit.Proofs.Hierarchy.Method
import PhpAudit.Proofs.Hierarchy.Subclass

/-!
# The parent chain

A parent chain of a class goes from parent to parent and meets no key twice (`ParentChain`). The one that is
listed is the longest of them, and all others are its beginnings (`prefix_ancestors`). It ends where nothing
new is above it (`Stops`): at a name that is not declared, at a class without a parent, or in front of a key
that it has met, be it on the way into a cycle or around one. `Climbs` is the walk without its bound.
-/

namespace PhpAudit.Hierarchy

variable {h : Hierarchy} {name : String} {seen chain : List String}

/-! ## The walk without a bound -/

/-- The names above `name`, as far as their keys are new. -/
inductive Climbs (h : Hierarchy) : List String → String → List String → Prop
  | stop {seen : List String} {name : String}
      (hseen : ∀ parent, h.parentOf? name = some parent → ClassName.key parent ∈ seen) :
      Climbs h seen name []
  | step {seen chain : List String} {name parent : String} (hparent : h.parentOf? name = some parent)
      (hnew : ClassName.key parent ∉ seen)
      (hrest : Climbs h (ClassName.key parent :: seen) parent chain) :
      Climbs h seen name (parent :: chain)

theorem climbs_climb {fuel : Nat} (hfuel : (h.unmet seen).length < fuel) :
    h.Climbs seen name (h.climb fuel seen (h.parentOf? name)) := by
  induction fuel generalizing seen name with
  | zero => omega
  | succ fuel ih =>
    cases hparent : h.parentOf? name with
    | none => exact .stop (by simp [hparent])
    | some parent =>
      unfold climb
      split
      · next hseen =>
        refine .stop fun other hother => ?_
        obtain rfl := Option.some.inj (hparent.symm.trans hother)
        simpa using hseen
      · next hnew =>
        have hnew : ClassName.key parent ∉ seen := by simpa using hnew
        refine .step hparent hnew ?_
        cases hc : h.get? parent with
        | none =>
          rw [climb_of_get?_eq_none hc]
          exact .stop (by simp [parentOf?, hc])
        | some c =>
          have hlt := unmet_cons_lt hc hnew
          exact ih (by omega)

theorem climbs_ancestors (h : Hierarchy) (name : String) :
    h.Climbs [ClassName.key name] name (h.ancestors name) := by
  have hunmet : (h.unmet [ClassName.key name]).length ≤ h.size := by
    unfold unmet size
    exact Nat.le_trans (List.length_filter_le _ _) (Nat.le_of_eq (List.length_map _))
  exact climbs_climb (Nat.lt_succ_of_le hunmet)

theorem Climbs.links (hc : h.Climbs seen name chain) :
    (name :: chain).IsChain fun a b => h.parentOf? a = some b := by
  induction hc with
  | stop => exact .singleton _
  | step hparent _ _ ih => exact .cons_cons hparent ih

theorem Climbs.nodup (hc : h.Climbs seen name chain) :
    (chain.map ClassName.key).Nodup ∧ ∀ a ∈ chain, ClassName.key a ∉ seen := by
  induction hc with
  | stop => simp
  | step _ hnew _ ih =>
    obtain ⟨hnodup, hfresh⟩ := ih
    refine ⟨List.nodup_cons.2 ⟨fun hmem => ?_, hnodup⟩, fun a ha => ?_⟩
    · obtain ⟨a, ha, hkey⟩ := List.mem_map.1 hmem
      exact hfresh a ha (by simp [hkey])
    · rcases List.mem_cons.1 ha with rfl | ha
      · exact hnew
      · exact fun hmem => hfresh a ha (List.mem_cons_of_mem _ hmem)

/-- Whoever climbs by the same links and meets no key twice stays on the chain. -/
theorem Climbs.prefix_of_links (hc : h.Climbs seen name chain) {front : List String}
    (hlinks : (name :: front).IsChain fun a b => h.parentOf? a = some b)
    (hnodup : (front.map ClassName.key).Nodup) (hfresh : ∀ a ∈ front, ClassName.key a ∉ seen) :
    front <+: chain := by
  induction hc generalizing front with
  | stop hseen =>
    cases front with
    | nil => exact List.nil_prefix
    | cons a front =>
      obtain ⟨hparent, -⟩ := List.isChain_cons_cons.1 hlinks
      exact absurd (hseen a hparent) (hfresh a List.mem_cons_self)
  | step hparent _ _ ih =>
    cases front with
    | nil => exact List.nil_prefix
    | cons a front =>
      obtain ⟨hparent', hlinks⟩ := List.isChain_cons_cons.1 hlinks
      obtain rfl := Option.some.inj (hparent.symm.trans hparent')
      rw [List.map_cons, List.nodup_cons] at hnodup
      refine (List.prefix_cons_inj _).2 (ih hlinks hnodup.2 fun b hb hmem => ?_)
      rcases List.mem_cons.1 hmem with hkey | hmem
      · exact hnodup.1 (hkey ▸ List.mem_map_of_mem hb)
      · exact hfresh b (List.mem_cons_of_mem _ hb) hmem

/-! ## Chains without repetition -/

/-- Each name is the parent of the declared class in front of it, the first one that of `name`, and no key
comes twice. -/
structure ParentChain (h : Hierarchy) (name : String) (chain : List String) : Prop where
  links : (name :: chain).IsChain fun a b => h.parentOf? a = some b
  nodup : ((name :: chain).map ClassName.key).Nodup

theorem parentChain_ancestors (h : Hierarchy) (name : String) :
    h.ParentChain name (h.ancestors name) := by
  obtain ⟨hnodup, hfresh⟩ := (climbs_ancestors h name).nodup
  refine ⟨(climbs_ancestors h name).links, List.nodup_cons.2 ⟨fun hmem => ?_, hnodup⟩⟩
  obtain ⟨a, ha, hkey⟩ := List.mem_map.1 hmem
  exact hfresh a ha (by simp [hkey])

/-- Every chain without repetition is a beginning of the one that is listed. -/
theorem prefix_ancestors {front : List String} (hc : h.ParentChain name front) :
    front <+: h.ancestors name := by
  have hnodup := hc.nodup
  rw [List.map_cons, List.nodup_cons] at hnodup
  refine (climbs_ancestors h name).prefix_of_links hc.links hnodup.2 fun a ha hmem => hnodup.1 ?_
  rw [← List.mem_singleton.1 hmem]
  exact List.mem_map_of_mem ha

theorem ParentChain.contains_of_mem_dropLast (hc : h.ParentChain name chain) {a : String}
    (ha : a ∈ (name :: chain).dropLast) : h.contains a = true := by
  obtain ⟨i, hi, rfl⟩ := List.mem_iff_getElem.1 ha
  rw [List.length_dropLast] at hi
  have hlink := List.isChain_iff_getElem.1 hc.links i (by omega)
  rw [← List.getElem_dropLast (by rw [List.length_dropLast]; exact hi)] at hlink
  obtain ⟨c, hget, -⟩ := Option.bind_eq_some_iff.1 hlink
  exact Option.isSome_iff_exists.2 ⟨c, hget⟩

theorem ParentChain.isSubclassOf_of_mem (hc : h.ParentChain name chain) {a : String}
    (ha : a ∈ chain) : h.isSubclassOf name a = true := by
  have hsuper : (name :: chain).IsChain (Relation.TransGen h.Super) := by
    refine hc.links.imp fun a b hparent => .single ⟨b, ?_, rfl⟩
    obtain ⟨c, hget, hparent⟩ := Option.bind_eq_some_iff.1 hparent
    simp [supersOf, ClassInfo.supers, hget, hparent]
  exact (isSubclassOf_iff _ _ _).2 ((List.pairwise_cons.1 hsuper.pairwise).1 a ha)

/-! ## Where the chain ends -/

/-- Nothing new is above a chain. Its last class, which is `name` itself if the chain is empty, is not declared,
has no parent, or has a parent whose key is that of `name` or in the chain. -/
inductive Stops (h : Hierarchy) (name : String) (chain : List String) : Prop
  | undeclared {last : String} (hlast : (name :: chain).getLast? = some last) (hget : h.get? last = none)
  | parentless {last : String} {c : ClassInfo} (hlast : (name :: chain).getLast? = some last)
      (hget : h.get? last = some c) (hparent : c.parent = none)
  | repeated {last parent : String} {c : ClassInfo} (hlast : (name :: chain).getLast? = some last)
      (hget : h.get? last = some c) (hparent : c.parent = some parent)
      (hmet : ClassName.key parent = ClassName.key name ∨
        ClassName.key parent ∈ chain.map ClassName.key)

theorem stops_iff {last : String} (hlast : (name :: chain).getLast? = some last) :
    h.Stops name chain ↔ ∀ parent, h.parentOf? last = some parent →
      ClassName.key parent ∈ (name :: chain).map ClassName.key := by
  unfold parentOf?
  constructor
  · intro hstops parent hparent
    cases hstops with
    | undeclared hlast' hget =>
      obtain rfl := Option.some.inj (hlast.symm.trans hlast')
      simp [hget] at hparent
    | parentless hlast' hget hnone =>
      obtain rfl := Option.some.inj (hlast.symm.trans hlast')
      simp [hget, hnone] at hparent
    | repeated hlast' hget hsome hmet =>
      obtain rfl := Option.some.inj (hlast.symm.trans hlast')
      rw [hget, Option.bind_some, hsome] at hparent
      obtain rfl := Option.some.inj hparent
      exact List.mem_cons.2 hmet
  · intro hall
    cases hget : h.get? last with
    | none => exact .undeclared hlast hget
    | some c =>
      cases hparent : c.parent with
      | none => exact .parentless hlast hget hparent
      | some parent =>
        exact .repeated hlast hget hparent (List.mem_cons.1 (hall parent (by simp [hget, hparent])))

theorem ParentChain.concat (hc : h.ParentChain name chain) {last parent : String}
    (hlast : (name :: chain).getLast? = some last) (hparent : h.parentOf? last = some parent)
    (hnew : ClassName.key parent ∉ (name :: chain).map ClassName.key) :
    h.ParentChain name (chain ++ [parent]) := by
  constructor
  · rw [← List.cons_append]
    refine List.isChain_append.2 ⟨hc.links, .singleton _, fun a ha b hb => ?_⟩
    obtain rfl := Option.some.inj (hlast.symm.trans ha)
    obtain rfl := Option.some.inj hb
    exact hparent
  · rw [← List.cons_append, List.map_append]
    refine List.nodup_append.2 ⟨hc.nodup, List.pairwise_singleton _ _, ?_⟩
    rintro key hkey _ hparent rfl
    exact hnew (List.mem_singleton.1 hparent ▸ hkey)

/-- The chain ends where nothing new is above it, and nowhere before. -/
theorem eq_ancestors_iff_stops {front : List String} (hfront : front <+: h.ancestors name) :
    front = h.ancestors name ↔ h.Stops name front := by
  obtain ⟨last, hlast⟩ : ∃ last, (name :: front).getLast? = some last :=
    ⟨_, List.getLast?_eq_some_getLast (List.cons_ne_nil _ _)⟩
  rw [stops_iff hlast]
  constructor
  · rintro rfl parent hparent
    by_contra hnew
    have hlonger := prefix_ancestors ((parentChain_ancestors h name).concat hlast hparent hnew)
    have := hlonger.length_le
    rw [List.length_append, List.length_singleton] at this
    omega
  · intro hstops
    obtain ⟨rest, hrest⟩ := hfront
    cases rest with
    | nil => simpa using hrest
    | cons next rest =>
      -- the next name on the chain would be a new parent
      obtain ⟨hlinks, hnodup⟩ := parentChain_ancestors h name
      rw [← hrest, ← List.cons_append] at hlinks hnodup
      have hparent := (List.isChain_append.1 hlinks).2.2 last hlast next rfl
      rw [List.map_append] at hnodup
      exact absurd rfl ((List.nodup_append.1 hnodup).2.2 _ (hstops next hparent) _ (by simp))

/-- The parent chain of a class is the longest one without repetition. It ends exactly where nothing new is
above it, all names on it but the last are declared, and the class is a subclass of them all. -/
theorem ancestors_longest (h : Hierarchy) (name : String) :
    let chain := h.ancestors name
    h.ParentChain name chain ∧
      (∀ front, h.ParentChain name front → front <+: chain) ∧
      (∀ front, front <+: chain → (front = chain ↔ h.Stops name front)) ∧
      (∀ a ∈ chain.dropLast, h.contains a = true) ∧
      ∀ a ∈ chain, h.isSubclassOf name a = true := by
  intro chain
  have hchain : h.ParentChain name chain := parentChain_ancestors h name
  refine ⟨hchain, fun _ => prefix_ancestors, fun _ => eq_ancestors_iff_stops, fun a ha => ?_,
    fun a => hchain.isSubclassOf_of_mem⟩
  refine hchain.contains_of_mem_dropLast ?_
  rw [List.dropLast_cons_of_ne_nil (List.ne_nil_of_mem (List.dropLast_subset _ ha))]
  exact List.mem_cons_of_mem _ ha

/-- `C` leads into the cycle of `A` and `B`, and its chain ends before `A` comes again. -/
example : (ofDeclarations [{ name := "C", parent := some "a" }, { name := "A", parent := some "B" },
    { name := "B", parent := some "\\A" }]).ancestors "c" = ["a", "B"] := by
  decide +kernel

end PhpAudit.Hierarchy
