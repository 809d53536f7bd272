import Mathlib.Data.Nat.Find
import PhpAudit.Proofs.Hierarchy.References
import PhpAudit.Proofs.Query.Steps
import PhpAudit.Proofs.Tree.Nesting
import PhpAudit.Query.ClassOf

/-!
# The parent of the class around a node

`parent` is looked up under the name of the class around it, where the first declaration in the project counts, and
read off the class itself only if nothing is found there. So it means what the class extends exactly if the first
declaration under that name extends nothing or the same (`resolve?_parent_iff`). A class that is declared twice can
be given the parent of its namesake (`resolve?_parent_of_namesake`).
-/

namespace PhpAudit

/-! ## First declarations -/

namespace SourceFile

variable {f : SourceFile} {rows : Outline} {decl : Node} {name : String}

/-- The node declares a class with the given name, up to the case of letters. -/
def Declares (f : SourceFile) (decl : Node) (name : String) : Prop :=
  f.Has decl ∧ decl.kind.isClassLike = true ∧
    ∃ own, decl.name? = some own ∧ ClassName.key own = ClassName.key name

/-- Whether the node is a class that is entered under the key of a name. -/
def isDescribed (f : SourceFile) (name : String) (n : Node) : Bool :=
  n.kind.isClassLike && (f.describe? n).any fun c => ClassName.key name == ClassName.key c.name

/-- What a class declaration extends, in its normal form. An interface extends other interfaces and has no
parent. -/
def extended? (f : SourceFile) (decl : Node) : Option String :=
  if decl.kind = .interfaceDecl then none
  else (f.namesIn decl .baseClause).head?.map fun r =>
    ClassName.normalize (r.resolved.getD (f.text r))

theorem parent_of_describe? {c : ClassInfo} (h : f.describe? decl = some c) :
    c.parent = f.extended? decl := by
  unfold describe? at h
  obtain ⟨name, -, rfl⟩ := Option.map_eq_some_iff.1 h
  unfold extended?
  dsimp only
  split
  · rfl
  · rw [superNames_eq, List.head?_map]

/-- The first name of the first clause is the first of all. -/
theorem head?_namesIn {clause : Kind} {base r : Node} (hbase : f.firstOf? decl clause = some base)
    (hr : (f.children base).find? (fun c => c.kind.isName) = some r) :
    (f.namesIn decl clause).head? = some r := by
  have hclauses : ((f.children decl).filter fun c => c.kind = clause).head? = some base := by
    rw [List.head?_filter]
    exact hbase
  obtain ⟨others, hothers⟩ := List.head?_eq_some_iff.1 hclauses
  unfold namesIn
  rw [hothers, List.flatMap_cons, List.head?_append, List.head?_filter, hr, Option.some_or]

/-- The node with the least id is found first. -/
theorem Linked.find?_nodes (hf : f.Linked) {p : Node → Bool} (hdecl : f.Has decl) (hp : p decl = true)
    (hleast : ∀ e, f.Has e → p e = true → decl.id ≤ e.id) : f.nodes.toList.find? p = some decl := by
  cases hfind : f.nodes.toList.find? p with
  | none => exact absurd hp (List.find?_eq_none.1 hfind decl (hf.mem_nodes.2 hdecl))
  | some e =>
    obtain ⟨he, before, behind, hsplit, hbefore⟩ := List.find?_eq_some_iff_append.1 hfind
    have hle := hleast e (hf.mem_nodes.1 (List.mem_of_find?_eq_some hfind)) he
    have hmem := hf.mem_nodes.2 hdecl
    have hsorted := hf.nodes_pairwise
    rw [hsplit] at hmem hsorted
    rcases List.mem_append.1 hmem with hmem | hmem
    · simpa [hp] using hbefore decl hmem
    · rcases List.mem_cons.1 hmem with rfl | hmem
      · rfl
      · have := (List.pairwise_cons.1 (List.pairwise_append.1 hsorted).2.1).1 decl hmem
        omega

end SourceFile

namespace Hierarchy

/-- The first declaration of a class in the files of a project. -/
structure FirstDeclared (files : List SourceFile) (name : String) (f : SourceFile) (decl : Node) :
    Prop where
  declares : f.Declares decl name
  least : ∀ e, f.Declares e name → decl.id ≤ e.id
  first : ∃ before behind, files = before ++ f :: behind ∧ ∀ f' ∈ before, ∀ e, ¬ f'.Declares e name

theorem exists_firstDeclared {files : List SourceFile} {name : String} {f : SourceFile} {decl : Node}
    (hf : f ∈ files) (h : f.Declares decl name) : ∃ f' e, FirstDeclared files name f' e := by
  induction files with
  | nil => cases hf
  | cons g files ih =>
    by_cases hg : ∃ k e, g.Declares e name ∧ e.id = k
    · classical
      obtain ⟨e, he, hid⟩ := Nat.find_spec hg
      refine ⟨g, e, he, fun e' he' => ?_, [], files, rfl, by simp⟩
      rw [hid]
      exact Nat.find_min' hg ⟨e', he', rfl⟩
    · have hnone : ∀ e, ¬ g.Declares e name := fun e he => hg ⟨e.id, e, he, rfl⟩
      rcases List.mem_cons.1 hf with rfl | hf
      · exact absurd h (hnone decl)
      obtain ⟨f', e, hdeclares, hleast, before, behind, rfl, hbefore⟩ := ih hf
      exact ⟨f', e, hdeclares, hleast, g :: before, behind, rfl, List.forall_mem_cons.2 ⟨hnone, hbefore⟩⟩

section Parsed

variable {g : Grammar} {files : List SourceFile} (hg : g.GivesTrees)
  (hfiles : ∀ f ∈ files, ∃ path source, SourceFile.parse g path source = .ok f)
  (hnames : ∀ f ∈ files, f.NamesSettled)
  {f : SourceFile} {decl : Node} {name : String}

include hfiles hnames in
theorem isDescribed_iff (hf : f ∈ files) (hdecl : f.Has decl) :
    f.isDescribed name decl = true ↔ f.Declares decl name := by
  rw [SourceFile.isDescribed, Bool.and_eq_true, Option.any_eq_true]
  refine Iff.symm ?_
  constructor
  · rintro ⟨-, hkind, own, hown, hkey⟩
    obtain ⟨c, hc⟩ := SourceFile.exists_describe? (f := f) hown
    refine ⟨hkind, c, hc, beq_iff_eq.2 ?_⟩
    rw [key_of_describe? hfiles hnames hf hdecl hkind hc hown, hkey]
  · rintro ⟨hkind, c, hc, hkey⟩
    obtain ⟨own, hown, -⟩ := Option.map_eq_some_iff.1 hc
    refine ⟨hdecl, hkind, own, hown, ?_⟩
    rw [← key_of_describe? hfiles hnames hf hdecl hkind hc hown, beq_iff_eq.1 hkey]

include hg hfiles in
theorem find?_declaredClasses (hf : f ∈ files) (name : String) :
    (f.declaredClasses.find? fun c => ClassName.key name == ClassName.key c.name) =
      (f.nodes.toList.find? (f.isDescribed name)).bind f.describe? := by
  obtain ⟨path, source, hparse⟩ := hfiles f hf
  obtain ⟨rows, ht, -, hm, -⟩ := SourceFile.mirrors_of_parse hg hparse
  obtain ⟨root, hroot, -⟩ := hm.root
  unfold SourceFile.declaredClasses
  rw [hroot]
  dsimp only
  rw [hm.descendants_root ht hroot, List.find?_filterMap, List.find?_filter]
  simp only [Bool.decide_and, Bool.decide_eq_true]
  rfl

include hg hfiles hnames

/-- A search among the declared classes of the project finds the first declaration. -/
theorem find?_of_firstDeclared (h : FirstDeclared files name f decl) :
    ((files.flatMap (·.declaredClasses)).find? fun c => ClassName.key name == ClassName.key c.name) =
      f.describe? decl := by
  obtain ⟨before, behind, hsplit, hbefore⟩ := h.first
  have hlinked : ∀ {f}, f ∈ files → f.Linked := fun hf =>
    have ⟨_, _, hparse⟩ := hfiles _ hf
    SourceFile.linked_of_parse hparse
  have hf : f ∈ files := by simp [hsplit]
  have hown : (f.declaredClasses.find? fun c => ClassName.key name == ClassName.key c.name) =
      f.describe? decl := by
    have hleast : ∀ e, f.Has e → f.isDescribed name e = true → decl.id ≤ e.id := fun e he hp =>
      h.least e ((isDescribed_iff hfiles hnames hf he).1 hp)
    rw [find?_declaredClasses hg hfiles hf, (hlinked hf).find?_nodes h.declares.1
      ((isDescribed_iff hfiles hnames hf h.declares.1).2 h.declares) hleast, Option.bind_some]
  have hnone : ((before.flatMap (·.declaredClasses)).find? fun c =>
      ClassName.key name == ClassName.key c.name) = none := by
    refine List.find?_eq_none.2 fun c hc hkey => ?_
    obtain ⟨f', hf', hc⟩ := List.mem_flatMap.1 hc
    have hmem : f' ∈ files := by simp [hsplit, hf']
    obtain ⟨e, he, hkind, hdescribe⟩ := (mem_declaredClasses hg hfiles hmem).1 hc
    refine hbefore f' hf' e ((isDescribed_iff hfiles hnames hmem he).1 ?_)
    simp [SourceFile.isDescribed, hkind, hdescribe, beq_iff_eq.1 hkey]
  obtain ⟨own, hname, -⟩ := h.declares.2.2
  obtain ⟨c, hc⟩ := SourceFile.exists_describe? (f := f) hname
  rw [hsplit, List.flatMap_append, List.find?_append, hnone, Option.none_or, List.flatMap_cons,
    List.find?_append, hown, hc, Option.some_or]

/-- The project knows the parent that the first declaration of a class gives it. -/
theorem parentOf?_of_firstDeclared (h : FirstDeclared files name f decl) :
    (build files).parentOf? name = f.extended? decl := by
  obtain ⟨own, hname, -⟩ := h.declares.2.2
  obtain ⟨c, hc⟩ := SourceFile.exists_describe? (f := f) hname
  unfold parentOf?
  rw [get?_build, find?_of_firstDeclared hg hfiles hnames h, hc, ← SourceFile.parent_of_describe? hc]
  rfl

end Parsed

end Hierarchy

/-! ## The word `parent` -/

namespace Context

theorem resolve?_parent (cx : Context) (n : Node) : cx.resolve? n "parent" = cx.parentClass? n := by
  have htrim : Text.trim "parent" = "parent" := by decide +kernel
  have hself : Text.sameAscii "parent" "self" = false := by decide +kernel
  have hstatic : Text.sameAscii "parent" "static" = false := by decide +kernel
  have hparent : Text.sameAscii "parent" "parent" = true := by decide +kernel
  simp [resolve?, htrim, hself, hstatic, hparent]

section Parsed

variable {g : Grammar} {files : List SourceFile} {f : SourceFile} {n decl base r : Node}

/-- The name that a class extends, as `parent` should mean it: the full name, or the written one in its normal form
where there is none. -/
def ownParent (f : SourceFile) (r : Node) : String :=
  r.resolved.getD (ClassName.normalize (f.text r))

/-- A class whose parent has its full name in normal form is known to extend its own parent. -/
theorem extended?_own (hbase : f.firstOf? decl .baseClause = some base)
    (hr : (f.children base).find? (fun c => c.kind.isName) = some r)
    (hnormal : ∀ full, r.resolved = some full → ClassName.normalize full = full) :
    f.extended? decl = if decl.kind = .interfaceDecl then none else some (ownParent f r) := by
  have hown : ClassName.normalize (r.resolved.getD (f.text r)) = ownParent f r := by
    unfold ownParent
    cases hfull : r.resolved with
    | none => rfl
    | some full => exact hnormal full hfull
  unfold SourceFile.extended?
  rw [SourceFile.head?_namesIn hbase hr, Option.map_some, hown]

theorem exists_name_of_resolve?_parent {classes : Hierarchy} {parent : String}
    (hdecl : f.enclosingClass? n = some decl)
    (h : (Context.mk f classes).resolve? n "parent" = some parent) :
    ∃ name, decl.name? = some name := by
  rw [resolve?_parent, parentClass?, hdecl, Option.bind_some] at h
  obtain ⟨name, hname, -⟩ := Option.bind_eq_some_iff.1 h
  exact ⟨name, hname⟩

/-- `parent` is what the first declaration of the class around it extends, or else what the class itself does. -/
theorem resolve?_parent_of_firstDeclared (hg : g.GivesTrees)
    (hfiles : ∀ f ∈ files, ∃ path source, SourceFile.parse g path source = .ok f)
    (hnames : ∀ f ∈ files, f.NamesSettled)
    (hdecl : f.enclosingClass? n = some decl) (hbase : f.firstOf? decl .baseClause = some base)
    (hr : (f.children base).find? (fun c => c.kind.isName) = some r) {name : String}
    (hname : decl.name? = some name) {f' : SourceFile} {first : Node}
    (hfirst : Hierarchy.FirstDeclared files name f' first) :
    (Context.mk f (.build files)).resolve? n "parent" =
      some ((f'.extended? first).getD (ownParent f r)) := by
  have hwritten : (Context.mk f (.build files)).writtenParent? decl = some (ownParent f r) := by
    simp [writtenParent?, hbase, hr, ownParent]
  rw [resolve?_parent, parentClass?, hdecl, Option.bind_some, hname, Option.bind_some, hwritten,
    Hierarchy.parentOf?_of_firstDeclared hg hfiles hnames hfirst]
  cases f'.extended? first <;> rfl

/-- Inside of a class that extends something, `parent` means the own parent of the class exactly if the first
declaration of the class in the project gives it no parent or the same one. In the first declaration itself this
is so if the full name of the parent is in its normal form. The names of the declared classes are settled, so that
a class is looked up under the key that it was entered under. -/
theorem resolve?_parent_iff (hg : g.GivesTrees)
    (hfiles : ∀ f ∈ files, ∃ path source, SourceFile.parse g path source = .ok f)
    (hnames : ∀ f ∈ files, f.NamesSettled) (hf : f ∈ files)
    (hn : f.Has n) (hdecl : f.enclosingClass? n = some decl)
    (hbase : f.firstOf? decl .baseClause = some base)
    (hr : (f.children base).find? (fun c => c.kind.isName) = some r) :
    let answer := (Context.mk f (.build files)).resolve? n "parent"
    (answer = some (ownParent f r) ↔ ∃ name f' first, decl.name? = some name ∧
        Hierarchy.FirstDeclared files name f' first ∧
        ∀ parent, f'.extended? first = some parent → parent = ownParent f r) ∧
      ∀ name, decl.name? = some name → Hierarchy.FirstDeclared files name f decl →
        (∀ full, r.resolved = some full → ClassName.normalize full = full) →
        answer = some (ownParent f r) := by
  intro answer
  have hanswer : ∀ {name f' first}, decl.name? = some name →
      Hierarchy.FirstDeclared files name f' first →
      answer = some ((f'.extended? first).getD (ownParent f r)) := fun hname hfirst =>
    resolve?_parent_of_firstDeclared hg hfiles hnames hdecl hbase hr hname hfirst
  refine ⟨⟨fun h => ?_, ?_⟩, fun name hname hfirst hnormal => ?_⟩
  · obtain ⟨name, hname⟩ := exists_name_of_resolve?_parent hdecl h
    obtain ⟨path, source, hparse⟩ := hfiles f hf
    have hhas : f.Has decl := (SourceFile.linked_of_parse hparse).stable_has.ancestors hn decl
      (List.mem_of_find?_eq_some hdecl)
    have hkind : decl.kind.isClassLike = true :=
      List.find?_some (p := fun a : Node => a.kind.isClassLike) hdecl
    obtain ⟨f', first, hfirst⟩ :=
      Hierarchy.exists_firstDeclared hf ⟨hhas, hkind, name, hname, rfl⟩
    refine ⟨name, f', first, hname, hfirst, fun parent hparent => ?_⟩
    rw [hanswer hname hfirst, hparent] at h
    exact Option.some.inj h
  · rintro ⟨name, f', first, hname, hfirst, hsame⟩
    rw [hanswer hname hfirst]
    cases hparent : f'.extended? first with
    | none => rfl
    | some parent => rw [Option.getD_some, hsame parent hparent]
  · rw [hanswer hname hfirst, extended?_own hbase hr hnormal]
    split <;> rfl

end Parsed

/-! ## A class with a namesake -/

/-- A class is declared in two ways. -/
def namesakeSource : String :=
  "<?php if(1)\x7bclass C extends A\x7b\x7d\x7delse\x7bclass C extends B\x7bfunction f()\x7b\x7d\x7d\x7d"

/-- The outline of `namesakeSource`. -/
def namesakeOutline : Outline :=
  [⟨0, "program", none, ⟨0, 71⟩⟩, ⟨1, "php_tag", none, ⟨0, 5⟩⟩, ⟨1, "if_statement", none, ⟨6, 71⟩⟩,
    ⟨2, "parenthesized_expression", some "condition", ⟨8, 11⟩⟩, ⟨3, "integer", none, ⟨9, 10⟩⟩,
    ⟨2, "compound_statement", some "body", ⟨11, 32⟩⟩, ⟨3, "class_declaration", none, ⟨12, 31⟩⟩,
    ⟨4, "name", some "name", ⟨18, 19⟩⟩, ⟨4, "base_clause", none, ⟨20, 29⟩⟩,
    ⟨5, "name", none, ⟨28, 29⟩⟩, ⟨4, "declaration_list", some "body", ⟨29, 31⟩⟩,
    ⟨2, "else_clause", some "alternative", ⟨32, 71⟩⟩, ⟨3, "compound_statement", some "body", ⟨36, 71⟩⟩,
    ⟨4, "class_declaration", none, ⟨37, 70⟩⟩, ⟨5, "name", some "name", ⟨43, 44⟩⟩,
    ⟨5, "base_clause", none, ⟨45, 54⟩⟩, ⟨6, "name", none, ⟨53, 54⟩⟩,
    ⟨5, "declaration_list", some "body", ⟨54, 70⟩⟩, ⟨6, "method_declaration", none, ⟨55, 69⟩⟩,
    ⟨7, "name", some "name", ⟨64, 65⟩⟩, ⟨7, "formal_parameters", some "parameters", ⟨65, 67⟩⟩,
    ⟨7, "compound_statement", some "body", ⟨67, 69⟩⟩]

/-- A grammar that knows this one source. -/
def namesakeGrammar : Grammar := .ofSamples [(namesakeSource, namesakeOutline)]

/-- The parsed file. -/
def namesakeFile : SourceFile := .ofParts "a.php" namesakeSource namesakeOutline

theorem givesTrees_namesakeGrammar : namesakeGrammar.GivesTrees :=
  Grammar.givesTrees_ofSamples fun p hp => by
    obtain rfl := List.mem_singleton.1 hp
    exact ⟨Outline.isTree_of_isNested (by decide +kernel), by decide +kernel⟩

theorem namesSettled_namesakeFile : ∀ f ∈ [namesakeFile], f.NamesSettled := by
  decide +kernel

theorem parse_namesakeGrammar : ∀ f ∈ [namesakeFile],
    ∃ path source, SourceFile.parse namesakeGrammar path source = .ok f := by
  intro f hf
  obtain rfl := List.mem_singleton.1 hf
  exact ⟨"a.php", namesakeSource, SourceFile.parse_of_outline (by decide +kernel) "a.php"⟩

/-- A node of the file, by its id. -/
def namesakeNode (i : Nat) : Node := (namesakeFile.node? i).getD default

/-- The bodies of the two declarations, with what they extend. -/
theorem nodes_namesakeFile : ∀ p ∈ [(10, 6, 8, 9), (18, 13, 15, 16)],
    namesakeFile.node? (namesakeNode p.1).id = some (namesakeNode p.1) ∧
      namesakeFile.enclosingClass? (namesakeNode p.1) = some (namesakeNode p.2.1) ∧
      namesakeFile.firstOf? (namesakeNode p.2.1) .baseClause = some (namesakeNode p.2.2.1) ∧
      (namesakeFile.children (namesakeNode p.2.2.1)).find? (fun c => c.kind.isName) =
        some (namesakeNode p.2.2.2) := by
  decide +kernel

/-- In the second declaration, which extends `B`, the word `parent` means the `A` of the first one. -/
theorem resolve?_parent_of_namesake :
    namesakeGrammar.GivesTrees ∧ (∀ f ∈ [namesakeFile], f.NamesSettled) ∧
      (∀ f ∈ [namesakeFile], ∃ path source, SourceFile.parse namesakeGrammar path source = .ok f) ∧
      ∃ n decl base r, namesakeFile.Has n ∧ namesakeFile.enclosingClass? n = some decl ∧
        namesakeFile.firstOf? decl .baseClause = some base ∧
        (namesakeFile.children base).find? (fun c => c.kind.isName) = some r ∧
        ownParent namesakeFile r = "B" ∧
        (Context.mk namesakeFile (.build [namesakeFile])).resolve? n "parent" = some "A" := by
  obtain ⟨hn, hdecl, hbase, hr⟩ := nodes_namesakeFile (18, 13, 15, 16) (by simp)
  exact ⟨givesTrees_namesakeGrammar, namesSettled_namesakeFile, parse_namesakeGrammar, _, _, _, _, hn,
    hdecl, hbase, hr, by decide +kernel, by decide +kernel⟩

theorem firstDeclared_namesake :
    Hierarchy.FirstDeclared [namesakeFile] "C" namesakeFile (namesakeNode 6) := by
  have hnodes : namesakeFile.node? (namesakeNode 6).id = some (namesakeNode 6) ∧
      (namesakeNode 6).kind.isClassLike = true ∧ (namesakeNode 6).name? = some "C" ∧
      ∀ e ∈ namesakeFile.nodes.toList, e.kind.isClassLike = true → (namesakeNode 6).id ≤ e.id := by
    decide +kernel
  obtain ⟨hhas, hkind, hname, hleast⟩ := hnodes
  refine ⟨⟨hhas, hkind, "C", hname, rfl⟩, fun e he => ?_, [], [], rfl, by simp⟩
  exact hleast e ((SourceFile.linked_ofParts ..).mem_nodes.2 he.1) he.2.1

/-- In the first declaration it means what that extends. -/
theorem resolve?_parent_iff_namesake :
    namesakeGrammar.GivesTrees ∧ (∀ f ∈ [namesakeFile], f.NamesSettled) ∧
      (∀ f ∈ [namesakeFile], ∃ path source, SourceFile.parse namesakeGrammar path source = .ok f) ∧
      Hierarchy.FirstDeclared [namesakeFile] "C" namesakeFile (namesakeNode 6) ∧
      namesakeFile.enclosingClass? (namesakeNode 10) = some (namesakeNode 6) ∧
      (Context.mk namesakeFile (.build [namesakeFile])).resolve? (namesakeNode 10) "parent" =
        some (ownParent namesakeFile (namesakeNode 9)) := by
  obtain ⟨hn, hdecl, hbase, hr⟩ := nodes_namesakeFile (10, 6, 8, 9) (by simp)
  have hname : (namesakeNode 6).name? = some "C" := by decide +kernel
  have hfull : (namesakeNode 9).resolved = some "A" := by decide +kernel
  have hparent := (resolve?_parent_iff givesTrees_namesakeGrammar parse_namesakeGrammar
    namesSettled_namesakeFile List.mem_cons_self hn hdecl hbase hr).2 "C" hname firstDeclared_namesake
  refine ⟨givesTrees_namesakeGrammar, namesSettled_namesakeFile, parse_namesakeGrammar,
    firstDeclared_namesake, hdecl, hparent fun full h => ?_⟩
  obtain rfl := Option.some.inj (hfull.symm.trans h)
  decide +kernel

end Context

end PhpAudit
