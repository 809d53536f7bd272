import PhpAudit.Proofs.Hierarchy.Lookup

/-!
# Where a method comes from

The inherited methods of a class are listed once, when a hierarchy is built, by a walk that stops at
classes it has met or does not know. Asking for a method later means to look into that list. The answer is
the one that the parent chain gives when it is asked afresh: the first declared class on it, the class
itself in front, that has the method (`findMethod?_build`). The two walks stay side by side because they
cut a cycle at the same key, and a class that is not declared ends both (`find?_passedDown`). Their bound
cuts nothing off the chain (`climb_eq_ancestors`): each step meets a declared class for the first time.
-/

namespace PhpAudit

namespace ClassInfo

theorem declares_iff {c : ClassInfo} {method : String} :
    c.declares method = true ↔ ∃ m ∈ c.ownMethods, Text.asciiLower m = Text.asciiLower method := by
  unfold declares Text.isOneOf Text.sameAscii
  simp only [List.any_eq_true, beq_iff_eq]

/-- The own methods of a class whose names are not taken. -/
def freshMethods (c : ClassInfo) (taken : List String) : List String :=
  c.ownMethods.filter fun m => !taken.contains (Text.asciiLower m)

theorem mem_freshMethods {c : ClassInfo} {taken : List String} {m : String} :
    m ∈ c.freshMethods taken ↔ m ∈ c.ownMethods ∧ Text.asciiLower m ∉ taken := by
  simp [freshMethods]

/-- A name that is not taken is among the fresh ones exactly if the class declares it. -/
theorem find?_freshMethods (c : ClassInfo) {taken : List String} {method : String}
    (hfree : Text.asciiLower method ∉ taken) :
    (((c.freshMethods taken).map (·, c.name)).find? fun p => Text.sameAscii p.1 method).map (·.2) =
      if c.declares method then some c.name else none := by
  by_cases hd : c.declares method = true
  · obtain ⟨m, hm, hlower⟩ := declares_iff.1 hd
    have hfresh : m ∈ c.freshMethods taken := mem_freshMethods.2 ⟨hm, by rw [hlower]; exact hfree⟩
    have hsome : (((c.freshMethods taken).map (·, c.name)).find? fun p =>
        Text.sameAscii p.1 method).isSome = true :=
      List.find?_isSome.2 ⟨(m, c.name), List.mem_map_of_mem hfresh, beq_iff_eq.2 hlower⟩
    obtain ⟨p, hp⟩ := Option.isSome_iff_exists.1 hsome
    obtain ⟨m', -, rfl⟩ := List.mem_map.1 (List.mem_of_find?_eq_some hp)
    rw [hp, if_pos hd, Option.map_some]
  · have hnone : (((c.freshMethods taken).map (·, c.name)).find? fun p =>
        Text.sameAscii p.1 method) = none := by
      refine List.find?_eq_none.2 fun p hp hsame => hd ?_
      obtain ⟨m, hm, rfl⟩ := List.mem_map.1 hp
      exact declares_iff.2 ⟨m, (mem_freshMethods.1 hm).1, beq_iff_eq.1 hsame⟩
    rw [hnone, if_neg hd, Option.map_none]

end ClassInfo

namespace Hierarchy

variable {h : Hierarchy}

/-- The name of the first class that declares a method. -/
def firstWith? (method : String) (classes : List ClassInfo) : Option String :=
  (classes.find? (·.declares method)).map (·.name)

theorem firstWith?_cons (method : String) (c : ClassInfo) (classes : List ClassInfo) :
    firstWith? method (c :: classes) =
      if c.declares method then some c.name else firstWith? method classes := by
  unfold firstWith?
  rw [List.find?_cons]
  cases c.declares method <;> rfl

/-- A class that is not declared ends the chain. -/
theorem climb_of_get?_eq_none {name : String} (hnone : h.get? name = none) (fuel : Nat)
    (seen : List String) : h.climb fuel seen (h.parentOf? name) = [] := by
  unfold parentOf?
  rw [hnone]
  cases fuel <;> rfl

/-! ## The bound on the chain -/

/-- The keys of the table that a walk has not met. -/
def unmet (h : Hierarchy) (met : List String) : List String :=
  (h.classes.map (·.1)).filter fun k => !met.contains k

theorem unmet_cons_lt {name : String} {met : List String} {c : ClassInfo}
    (hc : h.get? name = some c) (hnew : ClassName.key name ∉ met) :
    (h.unmet (ClassName.key name :: met)).length < (h.unmet met).length := by
  unfold get? at hc
  obtain ⟨before, after, heq, -⟩ := List.lookup_eq_some_iff.1 hc
  have hmem : ClassName.key name ∈ h.unmet met := by
    unfold unmet
    simp [heq, hnew]
  have hfilter : h.unmet (ClassName.key name :: met) =
      (h.unmet met).filter fun k => k != ClassName.key name := by
    unfold unmet
    rw [List.filter_filter]
    refine List.filter_congr fun k _ => ?_
    rw [List.contains_cons, Bool.not_or]
    rfl
  rw [hfilter, List.length_filter_lt_length_iff_exists]
  exact ⟨_, hmem, by simp⟩

/-- A walk with more steps left than classes to meet ends by itself. -/
theorem climb_succ {fuel : Nat} {seen : List String} {next : Option String}
    (hfuel : (h.unmet seen).length < fuel) :
    h.climb (fuel + 1) seen next = h.climb fuel seen next := by
  induction fuel generalizing seen next with
  | zero => omega
  | succ fuel ih =>
    cases next with
    | none => rfl
    | some name =>
      rw [climb, climb]
      split
      · rfl
      · next hseen =>
        congr 1
        cases hc : h.get? name with
        | none => rw [climb_of_get?_eq_none hc, climb_of_get?_eq_none hc]
        | some c =>
          have hlt : (h.unmet (ClassName.key name :: seen)).length < (h.unmet seen).length :=
            unmet_cons_lt hc (by simpa using hseen)
          exact ih (by omega)

/-- The parent chain is complete: a walk that may take more steps finds no more of it. -/
theorem climb_eq_ancestors (h : Hierarchy) (name : String) {fuel : Nat} (hfuel : h.size < fuel) :
    h.climb fuel [ClassName.key name] (h.parentOf? name) = h.ancestors name := by
  have hunmet : (h.unmet [ClassName.key name]).length ≤ h.size := by
    unfold unmet size
    exact Nat.le_trans (List.length_filter_le _ _) (Nat.le_of_eq (List.length_map _))
  obtain ⟨k, rfl⟩ := Nat.exists_eq_add_of_le hfuel
  induction k with
  | zero => rfl
  | succ k ih =>
    rw [← Nat.add_assoc, climb_succ (by omega)]
    exact ih (by omega)

/-! ## The methods that are passed down -/

/-- The walk that lists inherited methods and the walk up the parent chain meet the same declared
classes, so that a method that is not taken comes from the first of them that declares it. -/
theorem find?_passedDown (h : Hierarchy) {method : String} {fuel : Nat} {met taken : List String}
    {next : Option String} (hfree : Text.asciiLower method ∉ taken) :
    ((h.passedDown fuel met taken next).find? fun p => Text.sameAscii p.1 method).map (·.2) =
      firstWith? method ((h.climb fuel met next).filterMap h.get?) := by
  induction fuel generalizing met taken next with
  | zero => rfl
  | succ fuel ih =>
    cases next with
    | none => rfl
    | some name =>
      unfold passedDown climb
      split
      · rfl
      · split
        · next hnone =>
          rw [climb_of_get?_eq_none hnone, List.filterMap_cons_none hnone]
          rfl
        · next c hc =>
          have hparent : h.parentOf? name = c.parent := by
            unfold parentOf?
            rw [hc, Option.bind_some]
          have hfresh := c.find?_freshMethods hfree
          unfold ClassInfo.freshMethods at hfresh
          rw [List.filterMap_cons_some hc, firstWith?_cons, hparent, List.find?_append,
            Option.map_or, hfresh]
          split
          · rfl
          · next hd =>
            rw [Option.none_or]
            refine ih fun htaken => ?_
            rcases List.mem_append.1 htaken with htaken | htaken
            · exact hfree htaken
            · obtain ⟨m, hm, hlower⟩ := List.mem_map.1 htaken
              exact hd (ClassInfo.declares_iff.2 ⟨m, (List.mem_filter.1 hm).1, hlower⟩)

/-! ## Filling in inherited methods -/

theorem parentOf?_withInherited (h : Hierarchy) (name : String) :
    h.withInherited.parentOf? name = h.parentOf? name := by
  unfold parentOf?
  rw [get?_withInherited, Option.bind_map]
  rfl

theorem climb_withInherited (h : Hierarchy) (fuel : Nat) (seen : List String)
    (next : Option String) : h.withInherited.climb fuel seen next = h.climb fuel seen next := by
  induction fuel generalizing seen next with
  | zero => rfl
  | succ fuel ih =>
    cases next with
    | none => rfl
    | some name =>
      unfold climb
      rw [ih, parentOf?_withInherited]

theorem ancestors_withInherited (h : Hierarchy) (name : String) :
    h.withInherited.ancestors name = h.ancestors name := by
  have hsize : h.withInherited.size = h.size := List.length_map _
  unfold ancestors
  rw [hsize, climb_withInherited, parentOf?_withInherited]

theorem firstWith?_withInherited (h : Hierarchy) (method : String) (names : List String) :
    firstWith? method (names.filterMap h.withInherited.get?) =
      firstWith? method (names.filterMap h.get?) := by
  induction names with
  | nil => rfl
  | cons name names ih =>
    have hget := get?_withInherited h name
    cases hc : h.get? name with
    | none =>
      rw [hc, Option.map_none] at hget
      rw [List.filterMap_cons_none hget, List.filterMap_cons_none hc, ih]
    | some c =>
      rw [hc, Option.map_some] at hget
      rw [List.filterMap_cons_some hget, List.filterMap_cons_some hc, firstWith?_cons,
        firstWith?_cons, ih]
      rfl

theorem key_of_get?_ofDeclarations {cs : List ClassInfo} {name : String} {c : ClassInfo}
    (h : (ofDeclarations cs).get? name = some c) : ClassName.key c.name = ClassName.key name := by
  rw [get?_ofDeclarations] at h
  have hbeq := List.find?_some h
  rw [beq_iff_eq] at hbeq
  exact hbeq.symm

/-- In the hierarchy of a list of files, a class has a method from the first declared class that declares
it among the class itself and its parent chain, and from none if the class is not declared. -/
theorem findMethod?_build (files : List SourceFile) (name method : String) :
    let h := build files
    h.findMethod? name method =
      if h.contains name then
        (((name :: h.ancestors name).filterMap h.get?).find? (·.declares method)).map (·.name)
      else none := by
  intro h
  obtain ⟨plain, hplain, hkey⟩ : ∃ plain : Hierarchy, h = plain.withInherited ∧
      ∀ {name c}, plain.get? name = some c → ClassName.key c.name = ClassName.key name :=
    ⟨_, rfl, key_of_get?_ofDeclarations⟩
  show h.findMethod? name method = if h.contains name then
    firstWith? method ((name :: h.ancestors name).filterMap h.get?) else none
  rw [hplain, firstWith?_withInherited, ancestors_withInherited]
  unfold findMethod? contains
  rw [get?_withInherited]
  cases hc : plain.get? name with
  | none => rfl
  | some c =>
    rw [Option.map_some, Option.bind_some, Option.isSome_some, if_pos rfl,
      List.filterMap_cons_some hc, firstWith?_cons]
    by_cases hd : c.declares method = true
    · rw [if_pos hd]
      exact if_pos hd
    · rw [if_neg hd]
      refine (if_neg hd).trans ?_
      have hfree : Text.asciiLower method ∉ c.ownMethods.map Text.asciiLower := by
        intro hmem
        obtain ⟨m, hm, hlower⟩ := List.mem_map.1 hmem
        exact hd (ClassInfo.declares_iff.2 ⟨m, hm, hlower⟩)
      have hparent : plain.parentOf? name = c.parent := by
        unfold parentOf?
        rw [hc, Option.bind_some]
      unfold ancestors
      rw [hparent, ← hkey hc]
      exact plain.find?_passedDown hfree

end Hierarchy

end PhpAudit
