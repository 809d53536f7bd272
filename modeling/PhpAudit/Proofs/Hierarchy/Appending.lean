import PhpAudit.Proofs.Hierarchy.Growth
import PhpAudit.Proofs.Hierarchy.Inherited

/-!
# Appended files

Files that are appended to a project leave alone all that is known of it (`build_append`). A class stays what
its first declaration says (`Keeps`), so a parent chain of the shorter project is one of the longer project
too and can only go on where it ended (`Extends.isPrefix_ancestors`): at a name that the appended files declare.
Inherited methods are handed down along the chain, nearest first, so that those from further up join at the
end of the list (`isPrefix_inherited`) and hide none that was found before.
-/

namespace PhpAudit

/-- Two descriptions of a class say the same, apart from what it inherits. -/
structure ClassInfo.SameDeclaration (c c' : ClassInfo) : Prop where
  name_eq : c'.name = c.name
  parent_eq : c'.parent = c.parent
  interfaces_eq : c'.interfaces = c.interfaces
  ownMethods_eq : c'.ownMethods = c.ownMethods

namespace Hierarchy

/-- Every class of `h` is known to `h'` by the same declaration. -/
def Keeps (h h' : Hierarchy) : Prop :=
  ∀ name c, h.get? name = some c → ∃ c', h'.get? name = some c' ∧ c.SameDeclaration c'

theorem keeps_build (files more : List SourceFile) : (build files).Keeps (build (files ++ more)) := by
  intro name c hc
  rw [get?_build] at hc
  obtain ⟨d, hd, rfl⟩ := Option.map_eq_some_iff.1 hc
  rw [get?_build, List.flatMap_append, List.find?_append, hd]
  exact ⟨_, rfl, rfl, rfl, rfl, rfl⟩

variable {h h' : Hierarchy} {name : String} {chain : List String}

/-! ## Parent chains -/

theorem Extends.parentChain (hx : h.Extends h') (hc : h.ParentChain name chain) :
    h'.ParentChain name chain := by
  refine ⟨hc.links.imp fun a b hparent => ?_, hc.nodup⟩
  obtain ⟨c, hget, -⟩ := Option.bind_eq_some_iff.1 hparent
  rw [hx.parentOf?_eq (Option.isSome_iff_exists.2 ⟨c, hget⟩)]
  exact hparent

theorem Extends.isPrefix_ancestors (hx : h.Extends h') (name : String) :
    h.ancestors name <+: h'.ancestors name :=
  prefix_ancestors (hx.parentChain (parentChain_ancestors h name))

/-! ## Methods -/

theorem mem_dropLast_cons {a b : String} (h : a ∈ chain.dropLast) : a ∈ (b :: chain).dropLast := by
  rw [List.dropLast_cons_of_ne_nil (List.ne_nil_of_mem (List.dropLast_subset _ h))]
  exact List.mem_cons_of_mem _ h

/-- What the beginning of a chain hands down comes first. Only its last name may be missing in `h`, and behind
that one nothing is handed down there. -/
theorem Keeps.isPrefix_handedDown (hk : h.Keeps h') (hc : ∀ a ∈ chain.dropLast, h.contains a = true)
    (taken rest : List String) :
    handedDown taken (chain.filterMap h.get?) <+:
      handedDown taken ((chain ++ rest).filterMap h'.get?) := by
  induction chain generalizing taken with
  | nil => exact List.nil_prefix
  | cons a chain ih =>
    cases hget : h.get? a with
    | none =>
      have hlast : chain = [] := by
        by_contra hne
        have hmem : a ∈ (a :: chain).dropLast := by
          rw [List.dropLast_cons_of_ne_nil hne]
          exact List.mem_cons_self
        have := hc a hmem
        simp [contains, hget] at this
      rw [hlast, List.filterMap_cons_none hget]
      exact List.nil_prefix
    | some c =>
      obtain ⟨c', hget', hsame⟩ := hk a c hget
      have hfresh : c'.freshMethods taken = c.freshMethods taken := by
        unfold ClassInfo.freshMethods
        rw [hsame.ownMethods_eq]
      have hc' : ∀ b ∈ chain.dropLast, h.contains b = true := fun b hb => hc b (mem_dropLast_cons hb)
      rw [List.cons_append, List.filterMap_cons_some hget, List.filterMap_cons_some hget', handedDown,
        handedDown, hfresh, hsame.name_eq, List.prefix_append_right_inj]
      exact ih hc' _

variable {files more : List SourceFile} {c c' : ClassInfo}

/-- A class of the longer project inherits what it did, and perhaps more behind that. -/
theorem isPrefix_inherited (hget : (build files).get? name = some c)
    (hget' : (build (files ++ more)).get? name = some c') (hsame : c.SameDeclaration c') :
    c.inherited <+: c'.inherited := by
  have hk := keeps_build files more
  have hx := extends_build files more
  obtain ⟨rest, hrest⟩ := hx.isPrefix_ancestors c.name
  have hdeclared : ∀ a ∈ ((build files).ancestors c.name).dropLast, (build files).contains a = true := by
    intro a ha
    apply (parentChain_ancestors (build files) c.name).contains_of_mem_dropLast
    exact mem_dropLast_cons ha
  rw [inherited_build ((indexed_build _).get?_eq_some_iff.1 hget).1,
    inherited_build ((indexed_build _).get?_eq_some_iff.1 hget').1, hsame.ownMethods_eq, hsame.name_eq,
    ← hrest]
  exact hk.isPrefix_handedDown hdeclared _ rest

theorem inheritedFrom?_of_prefix (hp : c.inherited <+: c'.inherited) {method origin : String}
    (h : c.inheritedFrom? method = some origin) : c'.inheritedFrom? method = some origin := by
  unfold ClassInfo.inheritedFrom? at h ⊢
  obtain ⟨rest, hrest⟩ := hp
  obtain ⟨p, hp, rfl⟩ := Option.map_eq_some_iff.1 h
  rw [← hrest, List.find?_append, hp]
  rfl

theorem findMethod?_append {method origin : String}
    (h : (build files).findMethod? name method = some origin) :
    (build (files ++ more)).findMethod? name method = some origin := by
  unfold findMethod? at h ⊢
  obtain ⟨c, hget, h⟩ := Option.bind_eq_some_iff.1 h
  obtain ⟨c', hget', hsame⟩ := keeps_build files more name c hget
  have hdeclares : c'.declares method = c.declares method := by
    unfold ClassInfo.declares
    rw [hsame.ownMethods_eq]
  rw [hget', Option.bind_some, hdeclares, hsame.name_eq]
  split at h
  · next hd => rwa [if_pos hd]
  · next hd =>
    rw [if_neg hd]
    exact inheritedFrom?_of_prefix (isPrefix_inherited hget hget' hsame) h

/-- Files appended to a project change nothing that was known of it: a class keeps its name, its parent, its
interfaces and its methods, a subclass stays one, a parent chain goes on where it ended, and a method that was
found is found in the same class. -/
theorem build_append (files more : List SourceFile) :
    let h := build files
    let h' := build (files ++ more)
    (∀ name c, h.get? name = some c → ∃ c', h'.get? name = some c' ∧ c.SameDeclaration c') ∧
      (∀ name target, h.isSubclassOf name target = true → h'.isSubclassOf name target = true) ∧
      (∀ name, h.ancestors name <+: h'.ancestors name) ∧
      ∀ name method origin, h.findMethod? name method = some origin →
        h'.findMethod? name method = some origin := by
  intro h h'
  have hx : h.Extends h' := extends_build files more
  refine ⟨keeps_build files more, ?_, hx.isPrefix_ancestors, ?_⟩
  · intro name target
    exact hx.isSubclassOf
  · intro name method origin
    exact findMethod?_append

/-- `B` alone, with a parent that is not declared. -/
def lonelyFile : SourceFile :=
  .ofParts "lonely.php" "<?php class B extends C\x7bfunction g()\x7b\x7d\x7d"
    [⟨0, "program", none, ⟨0, 39⟩⟩, ⟨1, "php_tag", none, ⟨0, 5⟩⟩, ⟨1, "class_declaration", none, ⟨6, 39⟩⟩,
      ⟨2, "name", some "name", ⟨12, 13⟩⟩, ⟨2, "base_clause", none, ⟨14, 23⟩⟩, ⟨3, "name", none, ⟨22, 23⟩⟩,
      ⟨2, "declaration_list", some "body", ⟨23, 39⟩⟩, ⟨3, "method_declaration", none, ⟨24, 38⟩⟩,
      ⟨4, "name", some "name", ⟨33, 34⟩⟩, ⟨4, "formal_parameters", some "parameters", ⟨34, 36⟩⟩,
      ⟨4, "compound_statement", some "body", ⟨36, 38⟩⟩]

/-- The appended file declares `B` once more, continues its chain and closes it to a circle. -/
theorem build_append_circleFile :
    let h := build [lonelyFile]
    let h' := build ([lonelyFile] ++ [circleFile])
    h.ancestors "B" = ["C"] ∧ h.isSubclassOf "B" "C" = true ∧ h.findMethod? "B" "G" = some "B" ∧
      (∃ c', h'.get? "B" = some c' ∧ c'.parent = some "C" ∧ c'.ownMethods = ["g"]) ∧
      ["C"] <+: h'.ancestors "B" ∧ h'.isSubclassOf "B" "C" = true ∧ h'.findMethod? "B" "G" = some "B" := by
  have hget : (build [lonelyFile]).get? "B" = some ⟨"B", some "C", [], ["g"], []⟩ := by decide +kernel
  have hchain : (build [lonelyFile]).ancestors "B" = ["C"] := by decide +kernel
  have hsuper : (build [lonelyFile]).isSubclassOf "B" "C" = true := by decide +kernel
  have hmethod : (build [lonelyFile]).findMethod? "B" "G" = some "B" := by decide +kernel
  obtain ⟨hkeeps, hsubclass, hprefix, hfound⟩ := build_append [lonelyFile] [circleFile]
  obtain ⟨c', hget', hsame⟩ := hkeeps "B" _ hget
  exact ⟨hchain, hsuper, hmethod, ⟨c', hget', hsame.parent_eq, hsame.ownMethods_eq⟩,
    hchain ▸ hprefix "B", hsubclass _ _ hsuper, hfound _ _ _ hmethod⟩

end Hierarchy

end PhpAudit
