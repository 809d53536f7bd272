import Mathlib.Data.List.DropRight
import PhpAudit.Proofs.Hierarchy.Reachability
import PhpAudit.Proofs.Query.Parent
import PhpAudit.Proofs.Tree.Preorder

/-!
# First declarations

The hierarchy of a list of files has one class for every key under which a class is declared somewhere, at any
depth, and says of it what its earliest declaration says: the first file counts that declares the key, and
in that file the first declaration in preorder (`Earliest`, `build_holds_earliest`). Of the methods written in
a class each counts once, at its first place (`FirstOfEach`). Nothing is assumed of the files but that names have
no blanks in them: a blank behind a leading backslash would survive the first normalization and not the second.
-/

namespace PhpAudit

/-! ## Each name once -/

namespace Text

variable {names kept : List String}

/-- Among the names that are equal up to ASCII case the first is kept, and what is kept stays in order. -/
structure FirstOfEach (names kept : List String) : Prop where
  mem_iff : ∀ name, name ∈ kept ↔ names.find? (sameAscii · name) = some name
  in_order : kept.Pairwise fun a b => names.idxOf a < names.idxOf b

theorem FirstOfEach.subset (h : FirstOfEach names kept) : kept ⊆ names :=
  fun name hname => List.mem_of_find?_eq_some ((h.mem_iff name).1 hname)

/-- No two kept names are equal up to case. -/
theorem FirstOfEach.nodup (h : FirstOfEach names kept) : (kept.map asciiLower).Nodup := by
  unfold List.Nodup
  rw [List.pairwise_map]
  refine h.in_order.imp_of_mem fun {a b} ha hb hlt hlower => ?_
  have hfind : names.find? (sameAscii · a) = names.find? (sameAscii · b) := by
    unfold sameAscii
    rw [hlower]
  have heq : a = b := by
    have ha := (h.mem_iff a).1 ha
    rw [hfind, (h.mem_iff b).1 hb] at ha
    exact (Option.some.inj ha).symm
  rw [heq] at hlt
  exact Nat.lt_irrefl _ hlt

/-- Every name is kept in some spelling. -/
theorem FirstOfEach.isOneOf_eq (h : FirstOfEach names kept) (name : String) :
    isOneOf kept name = isOneOf names name := by
  rw [Bool.eq_iff_iff]
  unfold isOneOf
  simp only [List.any_eq_true]
  constructor
  · rintro ⟨m, hm, hsame⟩
    exact ⟨m, h.subset hm, hsame⟩
  · intro hsome
    obtain ⟨m, hfind⟩ := Option.isSome_iff_exists.1 (List.find?_isSome.2 hsome)
    have hsame : sameAscii m name = true := by simpa using List.find?_some hfind
    refine ⟨m, (h.mem_iff m).2 ?_, hsame⟩
    unfold sameAscii at hsame hfind ⊢
    rw [beq_iff_eq.1 hsame]
    exact hfind

theorem dedupAscii_concat (names : List String) (name : String) :
    dedupAscii (names ++ [name]) =
      if isOneOf (dedupAscii names) name then dedupAscii names else dedupAscii names ++ [name] := by
  unfold dedupAscii
  rw [List.foldl_append, List.foldl_cons, List.foldl_nil]

theorem firstOfEach_dedupAscii (names : List String) : FirstOfEach names (dedupAscii names) := by
  induction names using List.reverseRecOn with
  | nil => exact ⟨by simp [dedupAscii], .nil⟩
  | append_singleton names last ih =>
    have hidx : ∀ {name}, name ∈ dedupAscii names → (names ++ [last]).idxOf name = names.idxOf name :=
      fun hname => List.idxOf_append_of_mem (ih.subset hname)
    have horder : (dedupAscii names).Pairwise fun a b =>
        (names ++ [last]).idxOf a < (names ++ [last]).idxOf b :=
      ih.in_order.imp_of_mem fun ha hb hlt => by rwa [hidx ha, hidx hb]
    rw [dedupAscii_concat, ih.isOneOf_eq]
    split
    · next hold =>
      refine ⟨fun name => ?_, horder⟩
      rw [ih.mem_iff, List.find?_append]
      cases hfind : names.find? (sameAscii · name) with
      | some m => rfl
      | none =>
        -- the last name equals an earlier one, so it is not the first of its kind
        have hlast : sameAscii last name = false := by
          rw [Bool.eq_false_iff]
          intro hsame
          obtain ⟨m, hm, hsame'⟩ := List.any_eq_true.1 hold
          refine List.find?_eq_none.1 hfind m hm ?_
          unfold sameAscii at hsame hsame' ⊢
          rw [beq_iff_eq.1 hsame', hsame]
        simp [hlast]
    · next hnew =>
      have hnone : names.find? (sameAscii · last) = none :=
        List.find?_eq_none.2 fun m hm hsame => hnew (List.any_eq_true.2 ⟨m, hm, hsame⟩)
      have hmem : last ∉ names := fun hmem =>
        List.find?_eq_none.1 hnone last hmem (beq_iff_eq.2 rfl)
      refine ⟨fun name => ?_, List.pairwise_append.2 ⟨horder, List.pairwise_singleton _ _, ?_⟩⟩
      · rw [List.mem_append, List.mem_singleton, ih.mem_iff, List.find?_append]
        by_cases heq : name = last
        · subst heq
          have hself : sameAscii name name = true := beq_iff_eq.2 rfl
          simp [hnone, hself]
        · have hskip : [last].find? (sameAscii · name) ≠ some name := by
            intro hfind
            exact heq (List.mem_singleton.1 (List.mem_of_find?_eq_some hfind))
          cases hfind : names.find? (sameAscii · name) with
          | some m => simp [heq]
          | none => simp only [heq, Option.none_or, hskip, reduceCtorEq, or_self]
      · intro a ha b hb
        rw [List.mem_singleton.1 hb, hidx ha, List.idxOf_append_of_notMem hmem, List.idxOf_cons_self]
        exact Nat.lt_of_lt_of_le (List.idxOf_lt_length_of_mem (ih.subset ha)) (Nat.le_add_right _ _)

end Text

/-! ## Names without blanks -/

namespace ClassName

/-- A name without blanks is settled. -/
theorem isSettled_of_unbroken {name : String} (h : ∀ c ∈ name.toList, Text.isBlank c = false) : IsSettled name := by
  have hrest : ∀ c ∈ (Text.stripStart separator name).toList, Text.isBlank c = false := by
    unfold Text.stripStart
    rw [String.toList_ofList]
    exact fun c hc => h c ((List.dropWhile_sublist _).subset hc)
  unfold IsSettled key normalize
  rw [trim_of_unblank h, trim_of_unblank hrest]
  unfold Text.stripStart
  rw [String.toList_ofList, List.dropWhile_idempotent]

end ClassName

/-! ## What a declaration says -/

namespace SourceFile

variable {f : SourceFile} {decl : Node} {key : String} {d : ClassInfo}

/-- The methods in the body of a class as they are written, in source order. -/
def writtenMethods (f : SourceFile) (decl : Node) : List String :=
  (f.classBody? decl).toList.flatMap fun body =>
    ((f.children body).filter fun c => c.kind = .method).filterMap (·.value)

/-- The interfaces of a class, in their normal form. An interface has those that it extends in front. -/
def implemented (f : SourceFile) (decl : Node) : List String :=
  ((if decl.kind = .interfaceDecl then f.namesIn decl .baseClause else []) ++
    f.namesIn decl .interfaceClause).map fun r => ClassName.normalize (r.resolved.getD (f.text r))

/-- What is known of a class is what the declaration says, inherited methods apart. -/
structure Describes (f : SourceFile) (decl : Node) (d : ClassInfo) : Prop where
  name_eq : decl.name?.map ClassName.normalize = some d.name
  parent_eq : d.parent = f.extended? decl
  interfaces_eq : d.interfaces = f.implemented decl
  methods : Text.FirstOfEach (f.writtenMethods decl) d.ownMethods

theorem firstOfEach_methodNames (f : SourceFile) (decl : Node) :
    Text.FirstOfEach (f.writtenMethods decl) (f.methodNames decl) := by
  have heq : f.methodNames decl = Text.dedupAscii (f.writtenMethods decl) := by
    unfold methodNames writtenMethods
    cases f.classBody? decl with
    | none => rfl
    | some body => simp
  rw [heq]
  exact Text.firstOfEach_dedupAscii _

theorem describes_of_describe? {c : ClassInfo} (h : f.describe? decl = some c)
    (inherited : List (String × String)) : f.Describes decl { c with inherited := inherited } := by
  have hparent := parent_of_describe? h
  obtain ⟨name, hname, hc⟩ := Option.map_eq_some_iff.1 h
  have hclass := name_of_describe? h hname
  refine ⟨by rw [hname, Option.map_some, hclass], hparent, ?_, ?_⟩
  · rw [← hc]
    unfold implemented
    dsimp only
    rw [superNames_eq, superNames_eq, List.map_append]
    split <;> rfl
  · have hmethods : c.ownMethods = f.methodNames decl := by
      rw [← hc]
      dsimp only
      split <;> rfl
    rw [hmethods]
    exact firstOfEach_methodNames f decl

/-- The node hangs from the root and declares a class under the given key. -/
structure Introduces (f : SourceFile) (key : String) (decl : Node) : Prop where
  rooted : f.Rooted decl
  class_like : decl.kind.isClassLike = true
  name_key : decl.name?.map ClassName.key = some key

/-- No declared name has a blank in it. -/
def NamesUnbroken (f : SourceFile) : Prop :=
  ∀ decl name, f.Rooted decl → decl.kind.isClassLike = true → decl.name? = some name →
    ∀ c ∈ name.toList, Text.isBlank c = false

theorem mem_declaredClasses {c : ClassInfo} :
    c ∈ f.declaredClasses ↔
      ∃ decl, f.Rooted decl ∧ decl.kind.isClassLike = true ∧ f.describe? decl = some c := by
  unfold declaredClasses
  cases hroot : f.root? with
  | none => simp [Rooted, hroot]
  | some root => simp only [List.mem_filterMap, List.mem_filter, rooted_iff hroot, and_assoc]

theorem find?_declaredClasses_eq_some {name : String} {c : ClassInfo}
    (h : (f.declaredClasses.find? fun c => ClassName.key name == ClassName.key c.name) = some c) :
    ∃ root decl, f.root? = some root ∧ (f.descendants root).find? (f.isDescribed name) = some decl ∧
      f.describe? decl = some c := by
  unfold declaredClasses at h
  cases hroot : f.root? with
  | none => simp [hroot] at h
  | some root =>
    rw [hroot] at h
    dsimp only at h
    rw [List.find?_filterMap, List.find?_filter] at h
    obtain ⟨decl, hfind, hdescribe⟩ := Option.bind_eq_some_iff.1 h
    simp only [Bool.decide_and, Bool.decide_eq_true] at hfind
    exact ⟨root, decl, rfl, hfind, hdescribe⟩

theorem NamesUnbroken.isDescribed_iff (hf : f.NamesUnbroken) {name : String} (hrooted : f.Rooted decl) :
    f.isDescribed name decl = true ↔ f.Introduces (ClassName.key name) decl := by
  rw [isDescribed, Bool.and_eq_true, Option.any_eq_true]
  constructor
  · rintro ⟨hkind, c, hc, hkey⟩
    obtain ⟨own, hown, -⟩ := Option.map_eq_some_iff.1 hc
    refine ⟨hrooted, hkind, ?_⟩
    have hsettled := ClassName.isSettled_of_unbroken (hf decl own hrooted hkind hown)
    rw [name_of_describe? hc hown, hsettled] at hkey
    rw [hown, Option.map_some, beq_iff_eq.1 hkey]
  · intro h
    obtain ⟨own, hown, hkey⟩ := Option.map_eq_some_iff.1 h.name_key
    obtain ⟨c, hc⟩ := exists_describe? (f := f) hown
    have hsettled := ClassName.isSettled_of_unbroken (hf decl own hrooted h.class_like hown)
    refine ⟨h.class_like, c, hc, beq_iff_eq.2 ?_⟩
    rw [name_of_describe? hc hown, hsettled, hkey]

end SourceFile

namespace Hierarchy

variable {files : List SourceFile} {f : SourceFile} {decl : Node} {key name : String} {d : ClassInfo}

/-- Whatever the hierarchy knows, some declaration says. -/
theorem exists_describes (hd : d ∈ (build files).toList) :
    ∃ f ∈ files, ∃ decl, f.Rooted decl ∧ decl.kind.isClassLike = true ∧ f.Describes decl d := by
  have hget := (indexed_build files).get?_eq_some_iff.2 ⟨hd, rfl⟩
  rw [get?_build] at hget
  obtain ⟨c, hfind, rfl⟩ := Option.map_eq_some_iff.1 hget
  obtain ⟨f, hf, hc⟩ := List.mem_flatMap.1 (List.mem_of_find?_eq_some hfind)
  obtain ⟨decl, hrooted, hkind, hdescribe⟩ := SourceFile.mem_declaredClasses.1 hc
  exact ⟨f, hf, decl, hrooted, hkind, SourceFile.describes_of_describe? hdescribe _⟩

/-- The earliest declaration under a key: no file in front of its own declares the key, and in its file it
comes before all others that do. -/
structure Earliest (files : List SourceFile) (key : String) (f : SourceFile) (decl : Node) : Prop where
  introduces : f.Introduces key decl
  precedes : ∀ e, f.Introduces key e → e = decl ∨ f.Precedes decl e
  first_file : ∃ before behind, files = before ++ f :: behind ∧ ∀ f' ∈ before, ∀ e, ¬ f'.Introduces key e

/-- In a file in order, the earliest declaration has the least id. -/
theorem Earliest.id_le (h : Earliest files key f decl) (hf : f.InOrder) {e : Node}
    (he : f.Introduces key e) : decl.id ≤ e.id := by
  rcases h.precedes e he with rfl | hprec
  · exact Nat.le_refl _
  · exact Nat.le_of_lt (hf.lt_of_precedes hprec)

section Unbroken

variable (hnames : ∀ f ∈ files, f.NamesUnbroken)
include hnames

theorem exists_get?_of_introduces (hf : f ∈ files) (h : f.Introduces (ClassName.key name) decl) :
    ∃ d, (build files).get? name = some d := by
  have hdescribed := ((hnames f hf).isDescribed_iff h.rooted).2 h
  rw [SourceFile.isDescribed, Bool.and_eq_true, Option.any_eq_true] at hdescribed
  obtain ⟨hkind, c, hc, hkey⟩ := hdescribed
  have hmem : c ∈ files.flatMap (·.declaredClasses) :=
    List.mem_flatMap.2 ⟨f, hf, SourceFile.mem_declaredClasses.2 ⟨decl, h.rooted, hkind, hc⟩⟩
  rw [get?_build]
  cases hfind : (files.flatMap (·.declaredClasses)).find? fun c =>
      ClassName.key name == ClassName.key c.name with
  | none => exact absurd hkey (List.find?_eq_none.1 hfind c hmem)
  | some c => exact ⟨_, rfl⟩

/-- A look-up tells what the earliest declaration says. -/
theorem earliest_of_get? (hget : (build files).get? name = some d) :
    ∃ f decl, Earliest files (ClassName.key name) f decl ∧ f.Describes decl d := by
  rw [get?_build] at hget
  obtain ⟨c, hfind, rfl⟩ := Option.map_eq_some_iff.1 hget
  rw [List.find?_flatMap] at hfind
  obtain ⟨before, f, behind, rfl, hfound, hbefore⟩ := List.findSome?_eq_some_iff.1 hfind
  obtain ⟨root, decl, hroot, hfirst, hdescribe⟩ := SourceFile.find?_declaredClasses_eq_some hfound
  have hf : f ∈ before ++ f :: behind := by simp
  have hrooted : f.Rooted decl := (SourceFile.rooted_iff hroot).2 (List.mem_of_find?_eq_some hfirst)
  refine ⟨f, decl, ⟨?_, fun e he => ?_, before, behind, rfl, fun f' hf' e he => ?_⟩,
    SourceFile.describes_of_describe? hdescribe _⟩
  · exact ((hnames f hf).isDescribed_iff hrooted).1 (List.find?_some hfirst)
  · exact SourceFile.precedes_of_find? hroot hfirst he.rooted
      (((hnames f hf).isDescribed_iff he.rooted).2 he)
  · have hdescribed := ((hnames f' (List.mem_append_left _ hf')).isDescribed_iff he.rooted).2 he
    rw [SourceFile.isDescribed, Bool.and_eq_true, Option.any_eq_true] at hdescribed
    obtain ⟨hkind, c', hc', hkey⟩ := hdescribed
    exact List.find?_eq_none.1 (hbefore f' hf') c'
      (SourceFile.mem_declaredClasses.2 ⟨e, he.rooted, hkind, hc'⟩) hkey

end Unbroken

/-- The hierarchy of a list of files holds exactly the declared classes. Every declared name leads to what the
earliest declaration under its key says, everything that is held comes from an earliest declaration,
and the classes are listed with increasing keys. -/
theorem build_holds_earliest (hnames : ∀ f ∈ files, f.NamesUnbroken) :
    let h := build files
    (∀ f ∈ files, ∀ decl name, f.Rooted decl → decl.kind.isClassLike = true → decl.name? = some name →
      ∃ d, h.get? name = some d ∧
        ∃ f' e, Earliest files (ClassName.key name) f' e ∧ f'.Describes e d) ∧
    (∀ d ∈ h.toList, ∃ f decl, Earliest files (ClassName.key d.name) f decl ∧ f.Describes decl d) ∧
    (h.toList.map fun d => ClassName.key d.name).Pairwise (· < ·) := by
  intro h
  have hindexed : h.Indexed := indexed_build files
  refine ⟨fun f hf decl name hrooted hkind hname => ?_, fun d hd => ?_, ?_⟩
  · have hintroduces : f.Introduces (ClassName.key name) decl := ⟨hrooted, hkind, by rw [hname]; rfl⟩
    obtain ⟨d, hget⟩ := exists_get?_of_introduces hnames hf hintroduces
    exact ⟨d, hget, earliest_of_get? hnames hget⟩
  · exact earliest_of_get? hnames (hindexed.get?_eq_some_iff.2 ⟨hd, rfl⟩)
  · have hkeys : (h.toList.map fun d => ClassName.key d.name) = h.classes.map (·.1) := by
      unfold toList
      rw [List.map_map]
      exact List.map_congr_left fun e he => (hindexed.key_eq e he).symm
    rw [hkeys]
    exact hindexed.ordered

section Namesake

open Context

theorem namesUnbroken_namesakeFile : ∀ f ∈ [namesakeFile], f.NamesUnbroken := by
  intro f hf decl name hrooted hkind hname
  obtain rfl := List.mem_singleton.1 hf
  have hlinked : namesakeFile.Linked := SourceFile.linked_ofParts ..
  have hnodes : ∀ n ∈ namesakeFile.nodes.toList, n.kind.isClassLike = true →
      n.name?.all (fun name => name.toList.all fun c => !Text.isBlank c) = true := by
    decide +kernel
  have hall := hnodes decl (hlinked.mem_nodes.2 (hlinked.has_of_rooted hrooted)) hkind
  rw [hname, Option.all_some, List.all_eq_true] at hall
  exact fun c hc => by simpa using hall c hc

/-- The name of the second declaration leads to what the first one says, inside of another branch. -/
theorem build_holds_earliest_namesake :
    (∀ f ∈ [namesakeFile], f.NamesUnbroken) ∧
      (namesakeNode 13).name? = some "C" ∧ namesakeFile.extended? (namesakeNode 13) = some "B" ∧
      ∃ d, (build [namesakeFile]).get? "C" = some d ∧ d.parent = some "A" ∧
        ∃ decl, decl.id = 6 ∧ Earliest [namesakeFile] "c" namesakeFile decl ∧
          namesakeFile.Describes decl d := by
  have hlinked : namesakeFile.Linked := SourceFile.linked_ofParts ..
  have hrows : namesakeOutline.InOrder := (Outline.isTree_of_isNested (by decide +kernel)).inOrder
  have hroot : namesakeFile.root? = some (namesakeNode 0) := by decide +kernel
  have hnodes : (∀ i ∈ [6, 13], namesakeNode i ∈ namesakeFile.descendants (namesakeNode 0) ∧
        (namesakeNode i).kind.isClassLike = true ∧ (namesakeNode i).name? = some "C") ∧
      ∀ n ∈ namesakeFile.nodes.toList, n.kind.isClassLike = true → 6 ≤ n.id := by
    decide +kernel
  obtain ⟨hdecls, hleast⟩ := hnodes
  obtain ⟨hmem, hkind, hname⟩ := hdecls 13 (by simp)
  obtain ⟨d, hget, f, decl, hearliest, hdescribes⟩ := (build_holds_earliest namesUnbroken_namesakeFile).1
    namesakeFile List.mem_cons_self (namesakeNode 13) "C" ((SourceFile.rooted_iff hroot).2 hmem) hkind hname
  obtain rfl : f = namesakeFile := by
    obtain ⟨before, behind, hsplit, -⟩ := hearliest.first_file
    exact List.mem_singleton.1 (hsplit ▸ by simp)
  have hparent : ((build [namesakeFile]).get? "C").map (·.parent) = some (some "A") := by decide +kernel
  rw [hget, Option.map_some] at hparent
  refine ⟨namesUnbroken_namesakeFile, hname, by decide +kernel, d, hget, Option.some.inj hparent, decl, ?_,
    hearliest, hdescribes⟩
  obtain ⟨hmem, hkind, hname⟩ := hdecls 6 (by simp)
  have hle := hearliest.id_le (SourceFile.inOrder_ofParts hrows)
    ⟨(SourceFile.rooted_iff hroot).2 hmem, hkind, by rw [hname]; rfl⟩
  have hge := hleast decl (hlinked.mem_nodes.2 (hlinked.has_of_rooted hearliest.introduces.rooted))
    hearliest.introduces.class_like
  have hid : (namesakeNode 6).id = 6 := by decide +kernel
  omega

end Namesake

end Hierarchy

end PhpAudit
