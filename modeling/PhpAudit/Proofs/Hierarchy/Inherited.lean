import PhpAudit.Proofs.Hierarchy.Ancestors
import PhpAudit.Proofs.Hierarchy.Declarations

/-!
# Inherited methods

What a class inherits is a matter of its parent chain alone (`inherited_build`): the declared classes on it are
asked in turn, nearest first, and each hands down the methods that neither the class itself nor one asked before
declares (`Inherits`). The list has every such method once and in the order of the chain
(`inherited_of_mem_build`). None of this needs a chain without cycles, because the walk that makes the list
and the one that lists the chain leave a cycle at the same place.
-/

namespace PhpAudit

namespace ClassInfo

variable {c : ClassInfo} {taken : List String} {method : String}

theorem declares_eq_false_iff :
    c.declares method = false ↔ Text.asciiLower method ∉ c.ownMethods.map Text.asciiLower := by
  rw [← Bool.not_eq_true, declares_iff, List.mem_map]

/-- After a class has been asked, the names it declares are taken as well. -/
theorem notMem_taken_iff :
    Text.asciiLower method ∉ taken ++ (c.freshMethods taken).map Text.asciiLower ↔
      Text.asciiLower method ∉ taken ∧ c.declares method = false := by
  rw [List.mem_append, not_or]
  refine and_congr_right fun hfree => ?_
  rw [declares_eq_false_iff, not_iff_not, List.mem_map, List.mem_map]
  constructor
  · rintro ⟨m, hm, hlower⟩
    exact ⟨m, (mem_freshMethods.1 hm).1, hlower⟩
  · rintro ⟨m, hm, hlower⟩
    exact ⟨m, mem_freshMethods.2 ⟨hm, by rw [hlower]; exact hfree⟩, hlower⟩

end ClassInfo

namespace Hierarchy

/-! ## What a list of classes hands down -/

/-- The methods that the classes hand down, nearest first, beside those whose names are taken. -/
def handedDown (taken : List String) : List ClassInfo → List (String × String)
  | [] => []
  | c :: classes =>
    (c.freshMethods taken).map (·, c.name) ++
      handedDown (taken ++ (c.freshMethods taken).map Text.asciiLower) classes

variable {taken : List String} {classes : List ClassInfo}

theorem handedDown_map {g : ClassInfo → ClassInfo}
    (hg : ∀ c, (g c).name = c.name ∧ (g c).ownMethods = c.ownMethods) :
    handedDown taken (classes.map g) = handedDown taken classes := by
  induction classes generalizing taken with
  | nil => rfl
  | cons c classes ih =>
    have hfresh : (g c).freshMethods taken = c.freshMethods taken := by
      unfold ClassInfo.freshMethods
      rw [(hg c).2]
    rw [List.map_cons, handedDown, handedDown, hfresh, (hg c).1, ih]

/-- A method comes from the first class that declares it, unless its name is taken. -/
theorem mem_handedDown {p : String × String} :
    p ∈ handedDown taken classes ↔ Text.asciiLower p.1 ∉ taken ∧
      ∃ nearer c farther, classes = nearer ++ c :: farther ∧ p.1 ∈ c.ownMethods ∧ p.2 = c.name ∧
        ∀ b ∈ nearer, b.declares p.1 = false := by
  induction classes generalizing taken with
  | nil => simp [handedDown]
  | cons c classes ih =>
    rw [handedDown, List.mem_append, ih, ClassInfo.notMem_taken_iff, List.mem_map]
    constructor
    · rintro (⟨m, hm, rfl⟩ | ⟨⟨hfree, hc⟩, nearer, c', farther, rfl, hm, hname, hnearer⟩)
      · obtain ⟨hm, hfree⟩ := ClassInfo.mem_freshMethods.1 hm
        exact ⟨hfree, [], c, classes, rfl, hm, rfl, by simp⟩
      · exact ⟨hfree, c :: nearer, c', farther, rfl, hm, hname, List.forall_mem_cons.2 ⟨hc, hnearer⟩⟩
    · rintro ⟨hfree, nearer, c', farther, hsplit, hm, hname, hnearer⟩
      cases nearer with
      | nil =>
        obtain ⟨rfl, rfl⟩ := List.cons.inj hsplit
        exact .inl ⟨p.1, ClassInfo.mem_freshMethods.2 ⟨hm, hfree⟩, by rw [← hname]⟩
      | cons b nearer =>
        obtain ⟨rfl, rfl⟩ := List.cons.inj hsplit
        obtain ⟨hc, hnearer⟩ := List.forall_mem_cons.1 hnearer
        exact .inr ⟨⟨hfree, hc⟩, nearer, c', farther, rfl, hm, hname, hnearer⟩

/-- No method is handed down twice. -/
theorem nodup_handedDown (hown : ∀ c ∈ classes, (c.ownMethods.map Text.asciiLower).Nodup) :
    ((handedDown taken classes).map fun p => Text.asciiLower p.1).Nodup := by
  induction classes generalizing taken with
  | nil => exact .nil
  | cons c classes ih =>
    obtain ⟨hc, hrest⟩ := List.forall_mem_cons.1 hown
    rw [handedDown, List.map_append, List.map_map]
    refine List.nodup_append.2 ⟨?_, ih hrest, ?_⟩
    · exact hc.sublist ((List.filter_sublist).map _)
    · -- what comes later is not among the names that this class has taken
      rintro _ hlower _ hlower' rfl
      obtain ⟨p, hp, heq⟩ := List.mem_map.1 hlower'
      have hfree := (mem_handedDown.1 hp).1
      rw [heq] at hfree
      exact hfree (List.mem_append_right _ hlower)

/-- What is handed down is in the order of the classes. -/
theorem pairwise_handedDown (before : String → String → Prop) (hrefl : ∀ c ∈ classes, before c.name c.name)
    (horder : classes.Pairwise fun c c' => before c.name c'.name) :
    (handedDown taken classes).Pairwise fun p q => before p.2 q.2 := by
  induction classes generalizing taken with
  | nil => exact .nil
  | cons c classes ih =>
    obtain ⟨hc, hrest⟩ := List.forall_mem_cons.1 hrefl
    obtain ⟨hbefore, horder⟩ := List.pairwise_cons.1 horder
    rw [handedDown]
    refine List.pairwise_append.2 ⟨?_, ih hrest horder, ?_⟩
    · rw [List.pairwise_map]
      exact List.pairwise_of_forall fun _ _ => hc
    · intro p hp q hq
      obtain ⟨m, -, rfl⟩ := List.mem_map.1 hp
      obtain ⟨-, nearer, c', farther, hsplit, -, hname, -⟩ := mem_handedDown.1 hq
      rw [hname]
      exact hbefore c' (by simp [hsplit])

/-! ## Along the parent chain -/

/-- The walk that lists inherited methods asks the declared classes of the parent chain in turn. -/
theorem passedDown_eq (h : Hierarchy) (fuel : Nat) (met taken : List String) (next : Option String) :
    h.passedDown fuel met taken next = handedDown taken ((h.climb fuel met next).filterMap h.get?) := by
  induction fuel generalizing met taken next with
  | zero => rfl
  | succ fuel ih =>
    cases next with
    | none => rfl
    | some name =>
      unfold passedDown climb
      split
      · rfl
      · split
        · next hnone =>
          rw [climb_of_get?_eq_none hnone, List.filterMap_cons_none hnone]
          rfl
        · next c hc =>
          have hparent : h.parentOf? name = c.parent := by
            unfold parentOf?
            rw [hc, Option.bind_some]
          rw [List.filterMap_cons_some hc, hparent, handedDown, ← ih]
          rfl

theorem inheritedMethods_eq {h : Hierarchy} {c : ClassInfo} (hc : h.get? c.name = some c) :
    h.inheritedMethods c = handedDown (c.ownMethods.map Text.asciiLower)
      ((h.ancestors c.name).filterMap h.get?) := by
  have hparent : h.parentOf? c.name = c.parent := by
    unfold parentOf?
    rw [hc, Option.bind_some]
  unfold inheritedMethods ancestors
  rw [passedDown_eq, hparent]

/-- A class inherits a method from the nearest class on its parent chain that declares it, if it does not
declare the method itself. The class on the chain is declared, and not the same. -/
inductive Inherits (h : Hierarchy) (d : ClassInfo) : String × String → Prop
  | intro {method a : String} {nearer farther : List String} {c : ClassInfo}
      (hchain : h.ancestors d.name = nearer ++ a :: farther) (hget : h.get? a = some c)
      (hkey : ClassName.key c.name = ClassName.key a) (hother : ClassName.key c.name ≠ ClassName.key d.name)
      (hmethod : method ∈ c.ownMethods) (hown : d.declares method = false)
      (hnearer : ∀ b ∈ nearer, ∀ c', h.get? b = some c' → c'.declares method = false) :
      Inherits h d (method, c.name)

/-- How far up the parent chain of a class another one is. -/
def distance (h : Hierarchy) (name origin : String) : Nat :=
  ((h.ancestors name).map ClassName.key).idxOf (ClassName.key origin)

section Chain

variable {h : Hierarchy} {d : ClassInfo}

theorem key_ne_of_mem_ancestors {name a : String} (ha : a ∈ h.ancestors name) :
    ClassName.key a ≠ ClassName.key name := by
  have hnodup := (parentChain_ancestors h name).nodup
  rw [List.map_cons, List.nodup_cons] at hnodup
  exact fun heq => hnodup.1 (heq ▸ List.mem_map_of_mem ha)

theorem Indexed.mem_handedDown_iff (hi : h.Indexed) {p : String × String} :
    p ∈ handedDown (d.ownMethods.map Text.asciiLower) ((h.ancestors d.name).filterMap h.get?) ↔
      h.Inherits d p := by
  rw [mem_handedDown, ← ClassInfo.declares_eq_false_iff]
  constructor
  · rintro ⟨hown, nearer, c, farther, hsplit, hmethod, hname, hnearer⟩
    obtain ⟨front, rest, hchain, rfl, hrest⟩ := List.filterMap_eq_append_iff.1 hsplit
    obtain ⟨undeclared, a, behind, rfl, hnone, hget, -⟩ := List.filterMap_eq_cons_iff.1 hrest
    rw [← List.append_assoc] at hchain
    have hkey := (hi.get?_eq_some_iff.1 hget).2
    have hother : ClassName.key c.name ≠ ClassName.key d.name := by
      have ha : a ∈ h.ancestors d.name := by simp [hchain]
      rw [hkey]
      exact key_ne_of_mem_ancestors ha
    obtain ⟨method, origin⟩ := p
    obtain rfl : origin = c.name := hname
    refine .intro hchain hget hkey hother hmethod hown fun b hb c' hc' => ?_
    rcases List.mem_append.1 hb with hb | hb
    · exact hnearer c' (List.mem_filterMap.2 ⟨b, hb, hc'⟩)
    · rw [hnone b hb] at hc'
      cases hc'
  · rintro @⟨_, _, nearer, farther, c, hchain, hget, -, -, hmethod, hown, hnearer⟩
    have hsplit : (h.ancestors d.name).filterMap h.get? =
        nearer.filterMap h.get? ++ c :: farther.filterMap h.get? := by
      rw [hchain, List.filterMap_append, List.filterMap_cons_some hget]
    refine ⟨hown, _, c, _, hsplit, hmethod, rfl, fun c' hc' => ?_⟩
    obtain ⟨b, hb, hget'⟩ := List.mem_filterMap.1 hc'
    exact hnearer b hb c' hget'

theorem pairwise_distance (h : Hierarchy) (name : String) :
    (h.ancestors name).Pairwise fun a b => h.distance name a < h.distance name b := by
  have hnodup := (parentChain_ancestors h name).nodup
  rw [List.map_cons, List.nodup_cons] at hnodup
  have hidx : ∀ {i} (hi : i < (h.ancestors name).length), h.distance name (h.ancestors name)[i] = i := by
    intro i hi
    have hi' : i < ((h.ancestors name).map ClassName.key).length := by rwa [List.length_map]
    have hget := hnodup.2.idxOf_getElem i hi'
    rw [List.getElem_map] at hget
    exact hget
  refine List.pairwise_iff_getElem.2 fun i j hi hj hlt => ?_
  rw [hidx hi, hidx hj]
  exact hlt

theorem Indexed.pairwise_handedDown_ancestors (hi : h.Indexed) {name : String} :
    (handedDown taken ((h.ancestors name).filterMap h.get?)).Pairwise fun p q =>
      h.distance name p.2 ≤ h.distance name q.2 := by
  have horder : ((h.ancestors name).filterMap h.get?).Pairwise fun c c' =>
      h.distance name c.name ≤ h.distance name c'.name := by
    rw [List.pairwise_filterMap]
    refine (pairwise_distance h name).imp fun {a b} hlt c hc c' hc' => ?_
    have hkey := (hi.get?_eq_some_iff.1 hc).2
    have hkey' := (hi.get?_eq_some_iff.1 hc').2
    unfold distance at hlt ⊢
    rw [hkey, hkey']
    exact Nat.le_of_lt hlt
  exact pairwise_handedDown (fun a b => h.distance name a ≤ h.distance name b) (fun _ _ => Nat.le_refl _) horder

end Chain

/-! ## In the hierarchy of a list of files -/

variable {files : List SourceFile} {d : ClassInfo}

/-- What a class inherits is what the declared classes of its parent chain hand down. -/
theorem inherited_build (hd : d ∈ (build files).toList) :
    d.inherited = handedDown (d.ownMethods.map Text.asciiLower)
      (((build files).ancestors d.name).filterMap (build files).get?) := by
  have hget := (indexed_build files).get?_eq_some_iff.2 ⟨hd, rfl⟩
  unfold build at hget ⊢
  rw [ancestors_withInherited]
  generalize hplain : ofDeclarations (files.flatMap (·.declaredClasses)) = plain at hget ⊢
  have hindexed : plain.Indexed := hplain ▸ indexed_ofDeclarations _
  have hclasses : ∀ names : List String, names.filterMap plain.withInherited.get? =
      (names.filterMap plain.get?).map fun c => { c with inherited := plain.inheritedMethods c } := by
    intro names
    rw [List.map_filterMap]
    exact List.filterMap_congr fun name _ => get?_withInherited plain name
  rw [hclasses, handedDown_map (by intro c; exact ⟨rfl, rfl⟩)]
  rw [get?_withInherited] at hget
  obtain ⟨c, hc, rfl⟩ := Option.map_eq_some_iff.1 hget
  exact inheritedMethods_eq (hindexed.get?_eq_some_iff.2 ⟨(hindexed.get?_eq_some_iff.1 hc).1, rfl⟩)

/-- The methods of a class. Its own ones are those that a declaration of it writes, each once and in order. It
inherits exactly what the nearest classes on its parent chain declare, each method once, nothing that it
declares itself, and in the order of the chain. -/
theorem inherited_of_mem_build (hd : d ∈ (build files).toList) :
    let h := build files
    (∃ f ∈ files, ∃ decl, f.Rooted decl ∧ decl.kind.isClassLike = true ∧
        decl.name?.map ClassName.normalize = some d.name ∧
        Text.FirstOfEach (f.writtenMethods decl) d.ownMethods) ∧
      (d.ownMethods.map Text.asciiLower).Nodup ∧
      (d.inherited.map fun p => Text.asciiLower p.1).Nodup ∧
      (∀ p ∈ d.inherited, d.declares p.1 = false) ∧
      (∀ p, p ∈ d.inherited ↔ h.Inherits d p) ∧
      d.inherited.Pairwise fun p q => h.distance d.name p.2 ≤ h.distance d.name q.2 := by
  intro h
  have hindexed : h.Indexed := indexed_build files
  have hown : ∀ c ∈ h.toList, (c.ownMethods.map Text.asciiLower).Nodup := by
    intro c hc
    obtain ⟨_, _, _, _, _, hdescribes⟩ := exists_describes hc
    exact hdescribes.methods.nodup
  have hinherited := inherited_build hd
  obtain ⟨f, hf, decl, hrooted, hkind, hdescribes⟩ := exists_describes hd
  refine ⟨⟨f, hf, decl, hrooted, hkind, hdescribes.name_eq, hdescribes.methods⟩, hown d hd, ?_, ?_, ?_, ?_⟩
  · rw [hinherited]
    refine nodup_handedDown fun c hc => ?_
    obtain ⟨a, -, hget⟩ := List.mem_filterMap.1 hc
    exact hown c (hindexed.get?_eq_some_iff.1 hget).1
  · intro p hp
    rw [hinherited] at hp
    exact ClassInfo.declares_eq_false_iff.2 (mem_handedDown.1 hp).1
  · intro p
    rw [hinherited]
    exact hindexed.mem_handedDown_iff
  · rw [hinherited]
    exact hindexed.pairwise_handedDown_ancestors

/-! ## Around a cycle -/

/-- Three classes in a circle. -/
def circleSource : String :=
  "<?php class A extends B\x7bfunction f()\x7b\x7dfunction F()\x7b\x7d\x7d" ++
    "class B extends C\x7bfunction g()\x7b\x7dfunction f()\x7b\x7d\x7d" ++
    "class C extends A\x7bfunction G()\x7b\x7dfunction h()\x7b\x7d\x7d"

/-- The file, parsed. -/
def circleFile : SourceFile :=
  .ofParts "circle.php" circleSource
    [⟨0, "program", none, ⟨0, 147⟩⟩, ⟨1, "php_tag", none, ⟨0, 5⟩⟩, ⟨1, "class_declaration", none, ⟨6, 53⟩⟩,
      ⟨2, "name", some "name", ⟨12, 13⟩⟩, ⟨2, "base_clause", none, ⟨14, 23⟩⟩, ⟨3, "name", none, ⟨22, 23⟩⟩,
      ⟨2, "declaration_list", some "body", ⟨23, 53⟩⟩, ⟨3, "method_declaration", none, ⟨24, 38⟩⟩,
      ⟨4, "name", some "name", ⟨33, 34⟩⟩, ⟨4, "formal_parameters", some "parameters", ⟨34, 36⟩⟩,
      ⟨4, "compound_statement", some "body", ⟨36, 38⟩⟩, ⟨3, "method_declaration", none, ⟨38, 52⟩⟩,
      ⟨4, "name", some "name", ⟨47, 48⟩⟩, ⟨4, "formal_parameters", some "parameters", ⟨48, 50⟩⟩,
      ⟨4, "compound_statement", some "body", ⟨50, 52⟩⟩, ⟨1, "class_declaration", none, ⟨53, 100⟩⟩,
      ⟨2, "name", some "name", ⟨59, 60⟩⟩, ⟨2, "base_clause", none, ⟨61, 70⟩⟩, ⟨3, "name", none, ⟨69, 70⟩⟩,
      ⟨2, "declaration_list", some "body", ⟨70, 100⟩⟩, ⟨3, "method_declaration", none, ⟨71, 85⟩⟩,
      ⟨4, "name", some "name", ⟨80, 81⟩⟩, ⟨4, "formal_parameters", some "parameters", ⟨81, 83⟩⟩,
      ⟨4, "compound_statement", some "body", ⟨83, 85⟩⟩, ⟨3, "method_declaration", none, ⟨85, 99⟩⟩,
      ⟨4, "name", some "name", ⟨94, 95⟩⟩, ⟨4, "formal_parameters", some "parameters", ⟨95, 97⟩⟩,
      ⟨4, "compound_statement", some "body", ⟨97, 99⟩⟩, ⟨1, "class_declaration", none, ⟨100, 147⟩⟩,
      ⟨2, "name", some "name", ⟨106, 107⟩⟩, ⟨2, "base_clause", none, ⟨108, 117⟩⟩, ⟨3, "name", none, ⟨116, 117⟩⟩,
      ⟨2, "declaration_list", some "body", ⟨117, 147⟩⟩, ⟨3, "method_declaration", none, ⟨118, 132⟩⟩,
      ⟨4, "name", some "name", ⟨127, 128⟩⟩, ⟨4, "formal_parameters", some "parameters", ⟨128, 130⟩⟩,
      ⟨4, "compound_statement", some "body", ⟨130, 132⟩⟩, ⟨3, "method_declaration", none, ⟨132, 146⟩⟩,
      ⟨4, "name", some "name", ⟨141, 142⟩⟩, ⟨4, "formal_parameters", some "parameters", ⟨142, 144⟩⟩,
      ⟨4, "compound_statement", some "body", ⟨144, 146⟩⟩]

/-- `A` asks `B` and then `C`. `C` has no say about `G`, since `B` declares it in other letters, and the circle
ends in front of `A`. -/
theorem inherited_circleFile :
    let h := build [circleFile]
    let d : ClassInfo := ⟨"A", some "B", [], ["f"], [("g", "B"), ("h", "C")]⟩
    d ∈ h.toList ∧ h.ancestors d.name = ["B", "C"] ∧ h.Inherits d ("h", "C") ∧ ¬ h.Inherits d ("G", "C") ∧
      h.distance d.name "B" ≤ h.distance d.name "C" := by
  intro h d
  have hd : d ∈ h.toList := by decide +kernel
  have hchain : h.ancestors d.name = ["B", "C"] := by decide +kernel
  obtain ⟨-, -, -, -, hiff, horder⟩ := inherited_of_mem_build hd
  have hG : ("G", "C") ∉ d.inherited := by decide
  have horder := List.rel_of_pairwise_cons horder (List.mem_singleton_self _)
  exact ⟨hd, hchain, (hiff _).1 (by decide), fun hinherits => hG ((hiff _).2 hinherits), horder⟩

end Hierarchy

end PhpAudit
