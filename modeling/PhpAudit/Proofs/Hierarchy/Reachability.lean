import Mathlib.Data.List.Perm.Basic
import PhpAudit.Proofs.Hierarchy.Subclass
import PhpAudit.Tree.Naming

/-!
# Subclasses as paths in the graph of keys

The graph of a hierarchy has an edge from the key of every class it lists to the key of its parent and to
those of its interfaces. In the hierarchy of a list of files a class is a subclass of another exactly if a
path of one or more edges leads from key to key (`isSubclassOf_build_iff`). The answer is the one that the
search comes to when nothing bounds it (`Answers`): on a cycle it ends as well, since a key waits once.
Paths see neither in which order a class names its interfaces nor how a name is spelled.
-/

namespace PhpAudit

/-! ## Spellings -/

namespace ClassName

/-- Only the letters `A` to `Z` change, and they become letters. -/
theorem toLower_cases (c : Char) :
    c.toLower = c ∨ (65 ≤ c.toNat ∧ c.toNat ≤ 90 ∧ c.toLower.toNat = c.toNat + 32) := by
  unfold Char.toLower
  split
  · next h =>
    have hhigh : c.val.toNat ≤ 90 := h.2
    refine .inr ⟨h.1, hhigh, ?_⟩
    show (c.val + 32).toNat = c.val.toNat + 32
    rw [UInt32.toNat_add]
    exact Nat.mod_eq_of_lt (Nat.lt_of_le_of_lt (Nat.add_le_add_right hhigh 32) (by decide))
  · exact .inl rfl

theorem isBlank_toLower (c : Char) : Text.isBlank c.toLower = Text.isBlank c := by
  rcases toLower_cases c with h | ⟨hlow, hhigh, h⟩
  · rw [h]
  · have letter : ∀ d : Char, 65 ≤ d.toNat → d.toNat ≤ 122 → Text.isBlank d = false := by
      intro d hlow hhigh
      simp only [Text.isBlank, Bool.or_eq_false_iff, Bool.and_eq_false_iff, decide_eq_false_iff_not,
        beq_eq_false_iff_ne]
      omega
    rw [letter c hlow (by omega), letter c.toLower (by omega) (by omega)]

theorem beq_separator_toLower (c : Char) : (c.toLower == separator) = (c == separator) := by
  rcases toLower_cases c with h | ⟨hlow, hhigh, h⟩
  · rw [h]
  · have letter : ∀ d : Char, d.toNat ≠ 92 → (d == separator) = false := by
      intro d hd
      rw [beq_eq_false_iff_ne]
      rintro rfl
      exact hd rfl
    rw [letter c (by omega), letter c.toLower (by omega)]

/-- Normalization and the change to lower case commute. -/
theorem normalize_asciiLower (name : String) :
    normalize (Text.asciiLower name) = Text.asciiLower (normalize name) := by
  have hblank : Text.isBlank ∘ Char.toLower = Text.isBlank := funext isBlank_toLower
  have hseparator : (· == separator) ∘ Char.toLower = (· == separator) :=
    funext beq_separator_toLower
  unfold normalize Text.stripStart Text.trim Text.dropEndWhile Text.asciiLower
  simp only [String.toList_ofList, List.dropWhile_map, ← List.map_reverse, hblank, hseparator]

theorem stripStart_cons (c : Char) (s : String) :
    Text.stripStart c (String.singleton c ++ s) = Text.stripStart c s := by
  unfold Text.stripStart
  simp

/-- The spellings of one name: in other letters, or with a backslash in front. Blanks around a name do not
count. -/
inductive Respells : String → String → Prop
  | letters {name other : String} (h : Text.asciiLower other = Text.asciiLower name) :
      Respells name other
  | backslash {name other : String} (h : Text.trim other = "\\" ++ Text.trim name) :
      Respells name other
  | symm {name other : String} (h : Respells name other) : Respells other name
  | trans {name other third : String} (h : Respells name other) (h' : Respells other third) :
      Respells name third

theorem Respells.key_eq {name other : String} (h : Respells name other) : key other = key name := by
  induction h with
  | letters h =>
    unfold key
    rw [← normalize_asciiLower, h, normalize_asciiLower]
  | backslash h =>
    unfold key normalize
    rw [h]
    exact congrArg Text.asciiLower (stripStart_cons separator _)
  | symm _ ih => exact ih.symm
  | trans _ _ ih ih' => exact ih'.trans ih

end ClassName

namespace Hierarchy

variable {h : Hierarchy}

/-! ## The graph of keys -/

/-- An edge from the key of a listed class to that of its parent or of one of its interfaces. -/
def Edge (h : Hierarchy) (k k' : String) : Prop :=
  ∃ c ∈ h.toList, ClassName.key c.name = k ∧
    ∃ s, (c.parent = some s ∨ s ∈ c.interfaces) ∧ ClassName.key s = k'

/-- Every class stands in the table under the key of its name, and under no other. -/
structure Indexed (h : Hierarchy) : Prop where
  ordered : Ordered h.classes
  key_eq : ∀ e ∈ h.classes, e.1 = ClassName.key e.2.name

theorem Indexed.declare (hi : h.Indexed) (c : ClassInfo) : (h.declare c).Indexed := by
  refine ⟨ordered_insertNew hi.ordered _ _, fun e he => ?_⟩
  rcases mem_insertNew he with rfl | he
  · rfl
  · exact hi.key_eq e he

theorem indexed_ofDeclarations (cs : List ClassInfo) : (ofDeclarations cs).Indexed := by
  have hfold : ∀ {h : Hierarchy}, h.Indexed → (cs.foldl Hierarchy.declare h).Indexed := by
    induction cs with
    | nil => exact fun hi => hi
    | cons c cs ih => exact fun hi => ih (hi.declare c)
  exact hfold ⟨List.Pairwise.nil, by simp⟩

theorem Indexed.withInherited (hi : h.Indexed) : h.withInherited.Indexed := by
  unfold Hierarchy.withInherited
  refine ⟨?_, ?_⟩
  · unfold Ordered
    rw [List.map_map]
    exact hi.ordered
  · intro e he
    obtain ⟨e', he', rfl⟩ := List.mem_map.1 he
    exact hi.key_eq e' he'

theorem indexed_build (files : List SourceFile) : (build files).Indexed :=
  (indexed_ofDeclarations _).withInherited

/-- A look-up finds the one listed class that has the key. -/
theorem Indexed.get?_eq_some_iff (hi : h.Indexed) {name : String} {c : ClassInfo} :
    h.get? name = some c ↔ c ∈ h.toList ∧ ClassName.key c.name = ClassName.key name := by
  unfold get? toList
  rw [List.mem_map]
  constructor
  · intro hc
    have hmem : (ClassName.key name, c) ∈ h.classes := by
      obtain ⟨before, after, heq, -⟩ := List.lookup_eq_some_iff.1 hc
      rw [heq]
      simp
    exact ⟨⟨_, hmem, rfl⟩, (hi.key_eq _ hmem).symm⟩
  · rintro ⟨⟨⟨k, c⟩, hmem, rfl⟩, hkey⟩
    obtain rfl : k = ClassName.key name := (hi.key_eq _ hmem).trans hkey
    obtain ⟨before, after, heq⟩ := List.append_of_mem hmem
    refine List.lookup_eq_some_iff.2 ⟨before, after, heq, fun e he => ?_⟩
    -- the keys in front of the entry are smaller than its own
    have hordered := hi.ordered
    unfold Ordered at hordered
    rw [heq, List.map_append, List.pairwise_append] at hordered
    have hlt : e.1 < ClassName.key name :=
      hordered.2.2 e.1 (List.mem_map_of_mem he) _ (by simp)
    rw [bne_iff_ne]
    rintro heq
    rw [heq] at hlt
    exact String.lt_irrefl _ hlt

theorem Indexed.edge_iff_super (hi : h.Indexed) {a b : String} :
    h.Edge (ClassName.key a) (ClassName.key b) ↔ h.Super a b := by
  have mem_supers : ∀ {c : ClassInfo} {s : String},
      s ∈ c.supers ↔ c.parent = some s ∨ s ∈ c.interfaces := by
    intro c s
    simp [ClassInfo.supers]
  constructor
  · rintro ⟨c, hc, hkey, s, hs, hkey'⟩
    have hget : h.get? a = some c := hi.get?_eq_some_iff.2 ⟨hc, hkey⟩
    refine ⟨s, ?_, hkey'⟩
    unfold supersOf
    rw [hget]
    exact mem_supers.2 hs
  · rintro ⟨s, hs, hkey'⟩
    unfold supersOf at hs
    cases hget : h.get? a with
    | none => rw [hget] at hs; cases hs
    | some c =>
      rw [hget] at hs
      obtain ⟨hc, hkey⟩ := hi.get?_eq_some_iff.1 hget
      exact ⟨c, hc, hkey, s, mem_supers.1 hs, hkey'⟩

/-- Paths from key to key are the chains of links between the names. -/
theorem Indexed.path_iff (hi : h.Indexed) {a b : String} :
    Relation.TransGen h.Edge (ClassName.key a) (ClassName.key b) ↔
      Relation.TransGen h.Super a b := by
  constructor
  · intro hpath
    generalize hk : ClassName.key b = k at hpath
    induction hpath generalizing b with
    | single hedge =>
      subst hk
      exact .single (hi.edge_iff_super.1 hedge)
    | tail _ hedge ih =>
      subst hk
      -- the key on the way is that of a listed class
      obtain ⟨c, -, rfl, -⟩ := id hedge
      exact .tail (ih rfl) (hi.edge_iff_super.1 hedge)
  · exact fun hpath => hpath.lift ClassName.key fun _ _ hs => hi.edge_iff_super.2 hs

/-! ## The search without a bound -/

/-- The answer that the search for `target` ends with, however long it takes. -/
inductive Answers (h : Hierarchy) (target : String) : List String → List String → Bool → Prop
  | exhausted {seen : List String} : Answers h target seen [] false
  | found {seen queue : List String} {name : String}
      (hany : (h.supersOf name).any (ClassName.same · target) = true) :
      Answers h target seen (name :: queue) true
  | onward {seen queue : List String} {name : String} {answer : Bool}
      (hany : (h.supersOf name).any (ClassName.same · target) = false)
      (hrest : Answers h target (fresh seen (h.supersOf name)).1
        (queue ++ (fresh seen (h.supersOf name)).2) answer) :
      Answers h target seen (name :: queue) answer

theorem Frontier.answers {target : String} {fuel : Nat} {seen queue done : List String}
    (hfr : Frontier seen queue done) (hfuel : queue.length + h.load done < fuel) :
    h.Answers target seen queue (h.searchUp target fuel seen queue) := by
  induction fuel generalizing seen queue done with
  | zero => omega
  | succ fuel ih =>
    cases queue with
    | nil => exact .exhausted
    | cons name queue =>
      rw [searchUp_cons]
      cases hany : (h.supersOf name).any (ClassName.same · target) with
      | true => exact .found hany
      | false =>
        have hload := hfr.load_lt (h := h)
        rw [Bool.false_or]
        exact .onward hany (ih (hfr.next _) (by omega))

theorem answers_isSubclassOf (h : Hierarchy) (name target : String) :
    h.Answers target [ClassName.key name] [name] (h.isSubclassOf name target) := by
  unfold isSubclassOf
  refine (Frontier.start name).answers ?_
  rw [linkCount_eq_load, List.length_singleton]
  omega

/-! ## The order of interfaces -/

/-- The same class, with its interfaces named in some order. -/
structure SameLinks (c d : ClassInfo) : Prop where
  name_eq : d.name = c.name
  parent_eq : d.parent = c.parent
  interfaces_perm : d.interfaces.Perm c.interfaces

theorem SameLinks.supers_perm {c d : ClassInfo} (hcd : SameLinks c d) : d.supers.Perm c.supers := by
  unfold ClassInfo.supers
  rw [hcd.parent_eq]
  exact hcd.interfaces_perm.append_left _

theorem supers_perm_of_forall₂ {cs ds : List ClassInfo} (hlinks : List.Forall₂ SameLinks cs ds)
    (key : String) :
    (((ds.find? fun c => key == ClassName.key c.name).map (·.supers)).getD []).Perm
      (((cs.find? fun c => key == ClassName.key c.name).map (·.supers)).getD []) := by
  induction hlinks with
  | nil => exact .refl _
  | cons hcd _ ih =>
    rw [List.find?_cons, List.find?_cons, hcd.name_eq]
    split
    · exact hcd.supers_perm
    · exact ih

theorem super_of_sameLinks {files files' : List SourceFile}
    (hlinks : List.Forall₂ SameLinks (files.flatMap (·.declaredClasses))
      (files'.flatMap (·.declaredClasses))) : (build files').Super = (build files).Super := by
  funext a b
  have hperm : ((build files').supersOf a).Perm ((build files).supersOf a) := by
    rw [supersOf_build, supersOf_build]
    exact supers_perm_of_forall₂ hlinks _
  unfold Super
  simp only [hperm.mem_iff]

/-- In the hierarchy of a list of files, a class is a subclass of another exactly if a path of one or more
edges leads from its key to the other's. The search comes to this answer by itself, and neither the order of
interfaces nor the spelling of the two names changes it. -/
theorem isSubclassOf_build_iff (files : List SourceFile) (name target : String) :
    let h := build files
    (h.isSubclassOf name target = true ↔
        Relation.TransGen h.Edge (ClassName.key name) (ClassName.key target)) ∧
      h.Answers target [ClassName.key name] [name] (h.isSubclassOf name target) ∧
      (∀ files', List.Forall₂ SameLinks (files.flatMap (·.declaredClasses))
          (files'.flatMap (·.declaredClasses)) →
        (build files').isSubclassOf name target = h.isSubclassOf name target) ∧
      ∀ name' target', ClassName.Respells name name' → ClassName.Respells target target' →
        h.isSubclassOf name' target' = h.isSubclassOf name target := by
  intro h
  have hpath : ∀ name target, h.isSubclassOf name target = true ↔
      Relation.TransGen h.Edge (ClassName.key name) (ClassName.key target) := by
    intro name target
    rw [isSubclassOf_iff, (indexed_build files).path_iff]
  refine ⟨hpath name target, answers_isSubclassOf h name target, ?_, ?_⟩
  · intro files' hlinks
    rw [Bool.eq_iff_iff, isSubclassOf_iff, isSubclassOf_iff, super_of_sameLinks hlinks]
  · intro name' target' hname htarget
    rw [Bool.eq_iff_iff, hpath, hpath, hname.key_eq, htarget.key_eq]

/-- A class that extends itself and implements two interfaces, one of which leads on to `B`. -/
def cycleSource : String := "<?php class A extends A implements I,J{}interface J extends B{}"

/-- The same with the two interfaces the other way round. -/
def cycleSource' : String := "<?php class A extends A implements J,I{}interface J extends B{}"

/-- A file of either source; their trees have one outline. -/
def cycleSample (source : String) : SourceFile :=
  .ofParts "cycle.php" source
    [⟨0, "program", none, ⟨0, 63⟩⟩, ⟨1, "php_tag", none, ⟨0, 5⟩⟩,
      ⟨1, "class_declaration", none, ⟨6, 40⟩⟩, ⟨2, "name", some "name", ⟨12, 13⟩⟩,
      ⟨2, "base_clause", none, ⟨14, 23⟩⟩, ⟨3, "name", none, ⟨22, 23⟩⟩,
      ⟨2, "class_interface_clause", none, ⟨24, 38⟩⟩, ⟨3, "name", none, ⟨35, 36⟩⟩,
      ⟨3, "name", none, ⟨37, 38⟩⟩, ⟨2, "declaration_list", some "body", ⟨38, 40⟩⟩,
      ⟨1, "interface_declaration", none, ⟨40, 63⟩⟩, ⟨2, "name", some "name", ⟨50, 51⟩⟩,
      ⟨2, "base_clause", none, ⟨52, 61⟩⟩, ⟨3, "name", none, ⟨60, 61⟩⟩,
      ⟨2, "declaration_list", some "body", ⟨61, 63⟩⟩]

theorem sameLinks_cycleSample :
    List.Forall₂ SameLinks ([cycleSample cycleSource].flatMap (·.declaredClasses))
      ([cycleSample cycleSource'].flatMap (·.declaredClasses)) := by
  have hclasses : [cycleSample cycleSource].flatMap (·.declaredClasses) =
      [{ name := "A", parent := some "A", interfaces := ["I", "J"] },
        { name := "J", interfaces := ["B"] }] := by
    decide +kernel
  have hclasses' : [cycleSample cycleSource'].flatMap (·.declaredClasses) =
      [{ name := "A", parent := some "A", interfaces := ["J", "I"] },
        { name := "J", interfaces := ["B"] }] := by
    decide +kernel
  rw [hclasses, hclasses']
  exact .cons ⟨rfl, rfl, .swap _ _ _⟩ (.cons ⟨rfl, rfl, .refl _⟩ .nil)

/-- Past the cycle, `A` leads through `J` to `B`; so it does with its interfaces the other way round, and
under other spellings. -/
theorem isSubclassOf_cycleSample :
    let h := build [cycleSample cycleSource]
    h.isSubclassOf "A" "B" = true ∧ Relation.TransGen h.Edge "a" "b" ∧
      (build [cycleSample cycleSource']).isSubclassOf "A" "B" = true ∧
      h.isSubclassOf "\\a" "\\B" = true := by
  intro h
  have hanswer : h.isSubclassOf "A" "B" = true := by decide +kernel
  have hname : ClassName.Respells "A" "\\a" := by
    have hlower : ClassName.Respells "A" "a" := .letters rfl
    exact hlower.trans (.backslash rfl)
  have htarget : ClassName.Respells "B" "\\B" := .backslash rfl
  obtain ⟨hpath, -, horder, hspelling⟩ := isSubclassOf_build_iff [cycleSample cycleSource] "A" "B"
  exact ⟨hanswer, hpath.1 hanswer, (horder _ sameLinks_cycleSample).trans hanswer,
    (hspelling _ _ hname htarget).trans hanswer⟩

end Hierarchy

end PhpAudit
