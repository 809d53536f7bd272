import PhpAudit.Proofs.Comment.Clear
import PhpAudit.Proofs.Hierarchy.Reachability
import PhpAudit.Proofs.Namespace.Region

/-!
# Class aliases of a region

A `use` declaration imports functions or constants if the first word behind `use` is the keyword `function` or
`const`; white space and comments may stand in between. Whether a declaration is entered with the class
aliases is told by how its text opens instead. The two differ on the declarations that are `Misread`: a
name that only begins like a keyword, and a keyword that does not stand one space behind `use`. Every region
without such declarations has exactly the aliases of its class imports, in source order
(`imports_of_namespace`).
-/

namespace PhpAudit

/-! ## The first word of a declaration -/

namespace UseText

/-- White space between tokens: the blanks and three characters without width. -/
def isGap (c : Char) : Bool :=
  Text.isBlank c || c.toNat == 0x200B || c.toNat == 0x2060 || c.toNat == 0xFEFF

/-- The characters of names and keywords. -/
def isWordChar (c : Char) : Bool :=
  c.isAlphanum || c == '_' || (0x80 ≤ c.toNat && !isGap c)

/-- What a scan between two tokens is in. -/
inductive Gap
  | blank
  | lineComment
  | blockComment

/-- The text from its first token on. A closing tag ends a line comment and is a token. -/
def skipGap : Gap → List Char → List Char
  | .blank, '/' :: '/' :: cs => skipGap .lineComment cs
  | .blank, '/' :: '*' :: cs => skipGap .blockComment cs
  | .blank, '#' :: cs => skipGap .lineComment cs
  | .blank, c :: cs => if isGap c then skipGap .blank cs else c :: cs
  | .lineComment, '?' :: '>' :: cs => '?' :: '>' :: cs
  | .lineComment, c :: cs =>
    if c == '\n' || c == '\r' then skipGap .blank cs else skipGap .lineComment cs
  | .blockComment, '*' :: '/' :: cs => skipGap .blank cs
  | .blockComment, _ :: cs => skipGap .blockComment cs
  | _, [] => []

/-- The word that follows `use`, empty if another token does. -/
def firstWord (s : String) : List Char :=
  (skipGap .blank ((s.toList.dropWhile Text.isBlank).drop 3)).takeWhile isWordChar

/-- The keywords of imports that are not about classes. -/
def keywords : List (List Char) := ["function".toList, "const".toList]

/-- Whether the first word behind `use` is such a keyword. -/
def namesKeyword (s : String) : Bool :=
  keywords.contains ((firstWord s).map Char.toLower)

/-- The text starts with `use`, one space and the given letters. -/
def Opens (s : String) (kw : List Char) : Prop :=
  ['u', 's', 'e', ' '] ++ kw <+: (s.toList.dropWhile Text.isBlank).map Char.toLower

/-- The text opens with a keyword that is only the beginning of the first word, or its first word is a keyword
and it does not open with it. -/
def Misread (s : String) : Prop :=
  (∃ kw ∈ keywords, Opens s kw ∧ kw.length < (firstWord s).length) ∨
    (namesKeyword s = true ∧ ∀ kw ∈ keywords, ¬ Opens s kw)

instance (s : String) (kw : List Char) : Decidable (Opens s kw) :=
  inferInstanceAs (Decidable (_ <+: _))

instance (s : String) : Decidable (Misread s) :=
  inferInstanceAs (Decidable (_ ∨ _))

theorem saysNoClass_iff {s : String} :
    Insertion.saysNoClass s = true ↔ ∃ kw ∈ keywords, Opens s kw := by
  unfold Insertion.saysNoClass Text.startsWith
  rw [Insertion.toList_asciiLower_trimStart, Bool.or_eq_true, List.isPrefixOf_iff_prefix,
    List.isPrefixOf_iff_prefix]
  simp [keywords, Opens]

theorem isAlpha_iff {c : Char} : c.isAlpha = true ↔
    (65 ≤ c.toNat ∧ c.toNat ≤ 90) ∨ (97 ≤ c.toNat ∧ c.toNat ≤ 122) := by
  have hdef : c.isAlpha = (decide (65 ≤ c.val ∧ c.val ≤ 90) ||
      decide (97 ≤ c.val) && decide (c.val ≤ 122)) := rfl
  rw [hdef]
  simp only [Bool.or_eq_true, Bool.and_eq_true, decide_eq_true_eq, UInt32.le_iff_toNat_le]
  rfl

theorem isDigit_iff {c : Char} : c.isDigit = true ↔ 48 ≤ c.toNat ∧ c.toNat ≤ 57 := by
  simp only [Char.isDigit, Bool.and_eq_true, decide_eq_true_eq, UInt32.le_iff_toNat_le, ge_iff_le]
  rfl

theorem isWordChar_of_toLower {c : Char} (h : c.toLower.isAlpha = true) : isWordChar c = true := by
  have hc : c.isAlpha = true := by
    rcases ClassName.toLower_cases c with heq | ⟨hlow, hhigh, -⟩
    · rwa [heq] at h
    · exact isAlpha_iff.2 (.inl ⟨hlow, hhigh⟩)
  simp [isWordChar, Char.isAlphanum, hc]

theorem isGap_of_isWordChar {c : Char} (h : isWordChar c = true) : isGap c = false := by
  simp only [isWordChar, Char.isAlphanum, Bool.or_eq_true, Bool.and_eq_true, isAlpha_iff, isDigit_iff,
    beq_iff_eq, Bool.not_eq_true'] at h
  rcases h with (h | rfl) | h
  · simp only [isGap, Text.isBlank, Bool.or_eq_false_iff, Bool.and_eq_false_iff,
      decide_eq_false_iff_not, beq_eq_false_iff_ne]
    omega
  · decide
  · exact h.2

/-- A scan stops at a word. -/
theorem skipGap_of_isWordChar {c : Char} (h : isWordChar c = true) (cs : List Char) :
    skipGap .blank (c :: cs) = c :: cs := by
  have hgap := isGap_of_isWordChar h
  have hslash : c ≠ '/' := by
    rintro rfl
    revert h
    decide
  have hhash : c ≠ '#' := by
    rintro rfl
    revert h
    decide
  unfold skipGap
  split <;> simp_all

theorem eq_space_of_toLower {c : Char} (h : c.toLower = ' ') : c = ' ' := by
  rcases ClassName.toLower_cases c with heq | ⟨hlow, -, hnat⟩
  · rw [← heq, h]
  · rw [h] at hnat
    have : ' '.toNat = 32 := rfl
    omega

theorem skipGap_use {opening : List Char} (h : opening.map Char.toLower = ['u', 's', 'e', ' '])
    (cs : List Char) : skipGap .blank ((opening ++ cs).drop 3) = skipGap .blank cs := by
  obtain ⟨u, tail, rfl, -, h⟩ := List.map_eq_cons_iff.1 h
  obtain ⟨v, tail, rfl, -, h⟩ := List.map_eq_cons_iff.1 h
  obtain ⟨w, tail, rfl, -, h⟩ := List.map_eq_cons_iff.1 h
  obtain ⟨space, tail, rfl, hspace, h⟩ := List.map_eq_cons_iff.1 h
  obtain rfl := List.map_eq_nil_iff.1 h
  rw [eq_space_of_toLower hspace]
  exact if_pos (by decide)

/-- The first word of a text that opens with a keyword starts with this keyword. -/
theorem Opens.exists_rest {s : String} {kw : List Char} (h : Opens s kw) (hkw : kw ∈ keywords) :
    ∃ rest, (firstWord s).map Char.toLower = kw ++ rest := by
  have hletters : keywords.all (fun kw => !kw.isEmpty && kw.all Char.isAlpha) = true := by decide
  obtain ⟨hne, halpha⟩ : kw ≠ [] ∧ ∀ c ∈ kw, c.isAlpha = true := by
    simpa using List.all_eq_true.1 hletters kw hkw
  obtain ⟨tail, htail⟩ := h
  -- `use` and the space come first, then the letters of the keyword
  obtain ⟨opening, behind, hsplit, hopening, hbehind⟩ := List.map_eq_append_iff.1
    (htail.symm.trans (List.append_assoc _ _ _))
  obtain ⟨word, rest, rfl, hword, -⟩ := List.map_eq_append_iff.1 hbehind
  have hall : ∀ c ∈ word, isWordChar c = true := by
    intro c hc
    exact isWordChar_of_toLower (halpha _ (hword ▸ List.mem_map_of_mem hc))
  have hdrop : skipGap .blank ((s.toList.dropWhile Text.isBlank).drop 3) = word ++ rest := by
    obtain ⟨c, word, rfl⟩ : ∃ c tail, word = c :: tail := by
      refine List.exists_cons_of_ne_nil fun hnil => hne ?_
      rw [← hword, hnil, List.map_nil]
    rw [hsplit, skipGap_use hopening]
    exact skipGap_of_isWordChar (hall c List.mem_cons_self) _
  refine ⟨(rest.takeWhile isWordChar).map Char.toLower, ?_⟩
  unfold firstWord
  rw [hdrop, List.takeWhile_append_of_pos hall, List.map_append, hword]

theorem Opens.namesKeyword_iff {s : String} {kw : List Char} (h : Opens s kw) (hkw : kw ∈ keywords) :
    namesKeyword s = true ↔ (firstWord s).length ≤ kw.length := by
  have hdistinct : ∀ kw ∈ keywords, ∀ kw' ∈ keywords, kw <+: kw' → kw = kw' := by decide
  obtain ⟨rest, hrest⟩ := h.exists_rest hkw
  have hlength : (firstWord s).length = kw.length + rest.length := by
    rw [← List.length_append, ← hrest, List.length_map]
  unfold namesKeyword
  rw [List.contains_iff_mem, hrest]
  constructor
  · intro hmem
    have heq := hdistinct kw hkw _ hmem (List.prefix_append kw rest)
    have := congrArg List.length heq
    rw [List.length_append] at this
    omega
  · intro hle
    obtain rfl : rest = [] := List.eq_nil_of_length_eq_zero (by omega)
    rwa [List.append_nil]

/-- The misread texts are those that the way they open puts on the wrong side. -/
theorem misread_iff {s : String} : Misread s ↔ Insertion.saysNoClass s ≠ namesKeyword s := by
  by_cases hopens : ∃ kw ∈ keywords, Opens s kw
  · obtain ⟨kw, hkw, hopen⟩ := hopens
    rw [saysNoClass_iff.2 ⟨kw, hkw, hopen⟩, ne_comm, Ne,
      hopen.namesKeyword_iff hkw]
    constructor
    · rintro (⟨kw', hkw', hopen', hlt⟩ | ⟨-, hnone⟩)
      · rw [← hopen.namesKeyword_iff hkw, hopen'.namesKeyword_iff hkw']
        exact Nat.not_le.2 hlt
      · exact absurd hopen (hnone kw hkw)
    · exact fun hnot => .inl ⟨kw, hkw, hopen, Nat.not_le.1 hnot⟩
  · have hread : Insertion.saysNoClass s = false :=
      Bool.eq_false_iff.2 fun h => hopens (saysNoClass_iff.1 h)
    rw [hread, ne_comm, Bool.ne_false_iff]
    constructor
    · rintro (⟨kw, hkw, hopen, -⟩ | ⟨hnames, -⟩)
      · exact absurd ⟨kw, hkw, hopen⟩ hopens
      · exact hnames
    · exact fun hnames => .inr ⟨hnames, fun kw hkw hopen => hopens ⟨kw, hkw, hopen⟩⟩

end UseText

/-! ## The imports of a region -/

namespace SourceFile

variable {f : SourceFile} {rows : Outline}

/-- The clauses of a `use` declaration. -/
def clausesOf (f : SourceFile) (decl : Node) : List Node :=
  (f.descendants decl).filter fun n => n.kind = .useClause

/-- The path in front of the braces of a group. -/
def groupOf? (f : SourceFile) (decl : Node) : Option String :=
  ((f.children decl).find? fun c => c.form == "namespace_name").map f.text

/-- The `use` declarations of a region, by its position. -/
def usesIn (f : SourceFile) (i : Nat) : List Node :=
  (f.nodesOf .useDecl).filter fun decl => f.regionAt? decl.start == some i

/-- The class imports of a region: what the clauses of its `use` declarations say, without those that name a
keyword. -/
def classImports (f : SourceFile) (i : Nat) : List Import :=
  ((f.usesIn i).filter fun decl => !UseText.namesKeyword (f.text decl)).flatMap fun decl =>
    (f.clausesOf decl).filterMap fun clause => Import.ofClause? (f.text clause) (f.groupOf? decl)

/-- An import is entered with the region of its declaration. -/
theorem Complete.imports_eq_flatMap (hf : f.Complete) {i : Nat} {ns : Namespace}
    (h : f.namespaces[i]? = some ns) :
    ns.imports = ((f.usesIn i).filter fun decl => !f.importsNoClass decl).flatMap f.importsOf := by
  have hdecl : ∀ decl : Node, (((f.importsOf decl).map fun x => (decl.span.start, x)).filter
      fun p => f.regionAt? p.1 == some i).map (·.2) =
        if f.regionAt? decl.start == some i then f.importsOf decl else [] := by
    intro decl
    by_cases hi : f.regionAt? decl.span.start = some i <;>
      simp [List.filter_map, Function.comp_def, Node.start, hi]
  rw [hf.imports_of_getElem? h]
  unfold imports usesIn
  rw [List.filter_flatMap, List.map_flatMap]
  simp only [hdecl]
  induction f.nodesOf .useDecl with
  | nil => rfl
  | cons decl decls ih =>
    by_cases hi : f.regionAt? decl.start == some i <;> by_cases hno : f.importsNoClass decl <;>
      simp_all

/-- The clauses of the `use` declarations of a region follow each other in the source. -/
theorem Mirrors.clauses_pairwise (hf : f.Mirrors rows) (ht : rows.IsTree)
    (hnest : ∀ d ∈ f.nodesOf .useDecl, ∀ e ∈ f.nodesOf .useDecl, e ∈ f.descendants d → e = d)
    (i : Nat) :
    ((f.usesIn i).flatMap f.clausesOf).Pairwise fun c d => c.id < d.id ∧ c.start ≤ d.start := by
  have hhas : ∀ d ∈ f.usesIn i, f.Has d := fun d hd =>
    hf.has_of_mem_nodesOf (List.mem_filter.1 hd).1
  have hclause : ∀ d ∈ f.usesIn i, ∀ c ∈ f.clausesOf d, f.Has c ∧ f.Below d c := by
    intro d hd c hc
    have hbelow := (hf.mem_descendants (hhas d hd)).1 (List.mem_filter.1 hc).1
    exact ⟨hf.has_of_below (hhas d hd) hbelow, hbelow⟩
  have hids : ((f.usesIn i).flatMap f.clausesOf).Pairwise (·.id < ·.id) := by
    refine List.pairwise_flatMap.2 ⟨fun d hd => ?_, ?_⟩
    · exact (hf.preorder_pairwise _ (hhas d hd)).filter _
    · refine ((hf.nodesOf_pairwise .useDecl).filter _).imp_of_mem fun {d e} hd he hlt => ?_
      intro c hc c' hc'
      have hunder : ¬ rows.Under d.id e.id := by
        intro hunder
        have hbelow := below_of_under hf.toInOrder ht hf.fromRow (hhas d hd) (hhas e he) hunder
        have heq := hnest d (List.mem_filter.1 hd).1 e (List.mem_filter.1 he).1
          ((hf.mem_descendants (hhas d hd)).2 hbelow)
        exact Nat.ne_of_gt hlt (congrArg (·.id) heq)
      have hend : d.id + rows.subtreeSize d.id ≤ e.id := by
        rw [Outline.under_iff] at hunder
        omega
      have hmem : c.id ∈ List.range' d.id (rows.subtreeSize d.id) := by
        rw [← hf.descendants_eq (hhas d hd)]
        exact List.mem_map_of_mem (List.mem_filter.1 hc).1
      have hle := hf.le_of_below (hhas e he) (hclause e he c' hc').2
      rw [List.mem_range'_1] at hmem
      omega
  refine hids.imp_of_mem fun {c d} hc hd hlt => ⟨hlt, ?_⟩
  obtain ⟨e, he, hc⟩ := List.mem_flatMap.1 hc
  obtain ⟨e', he', hd⟩ := List.mem_flatMap.1 hd
  exact hf.start_le (hclause e he c hc).1 (hclause e' he' d hd).1 (Nat.le_of_lt hlt)

/-- A region without misread declarations has exactly its class imports. Their clauses stand in source order,
and a declaration is misread exactly if it is entered and names a keyword, or neither. -/
theorem imports_of_namespace {g : Grammar} (hg : g.GivesTrees) {path source : String}
    (hparse : parse g path source = .ok f) :
    (∀ i ns, f.namespaces[i]? = some ns →
      (∀ decl ∈ f.usesIn i, ¬ UseText.Misread (f.text decl)) → ns.imports = f.classImports i) ∧
    (∀ decl, UseText.Misread (f.text decl) ↔
      f.importsNoClass decl ≠ UseText.namesKeyword (f.text decl)) ∧
    ((∀ d ∈ f.nodesOf .useDecl, ∀ e ∈ f.nodesOf .useDecl, e ∈ f.descendants d → e = d) →
      ∀ i, ((f.usesIn i).flatMap f.clausesOf).Pairwise
        fun c d => c.id < d.id ∧ c.start ≤ d.start) := by
  obtain ⟨rows, ht, -, hf, hc⟩ := mirrors_of_parse hg hparse
  have hmisread : ∀ decl, UseText.Misread (f.text decl) ↔
      f.importsNoClass decl ≠ UseText.namesKeyword (f.text decl) := fun _ => UseText.misread_iff
  refine ⟨fun i ns hns hread => ?_, hmisread, hf.clauses_pairwise ht⟩
  rw [hc.imports_eq_flatMap hns]
  have hsame : (f.usesIn i).filter (fun decl => !f.importsNoClass decl) =
      (f.usesIn i).filter fun decl => !UseText.namesKeyword (f.text decl) := by
    refine List.filter_congr fun decl hdecl => ?_
    have := mt (hmisread decl).2 (hread decl hdecl)
    rw [not_not.1 this]
  rw [hsame]
  rfl

/-- A group of classes, and a function. -/
def groupSource : String := "<?php use A\\\x7bB, C as D\x7d; use function A\\f;"

/-- The outline of `groupSource`. -/
def groupOutline : Outline :=
  [⟨0, "program", none, ⟨0, 42⟩⟩, ⟨1, "php_tag", none, ⟨0, 5⟩⟩,
    ⟨1, "namespace_use_declaration", none, ⟨6, 24⟩⟩, ⟨2, "namespace_name", none, ⟨10, 11⟩⟩,
    ⟨3, "name", none, ⟨10, 11⟩⟩, ⟨2, "namespace_use_group", none, ⟨12, 23⟩⟩,
    ⟨3, "namespace_use_group_clause", none, ⟨13, 14⟩⟩, ⟨4, "namespace_name", none, ⟨13, 14⟩⟩,
    ⟨5, "name", none, ⟨13, 14⟩⟩, ⟨3, "namespace_use_group_clause", none, ⟨16, 22⟩⟩,
    ⟨4, "namespace_name", none, ⟨16, 17⟩⟩, ⟨5, "name", none, ⟨16, 17⟩⟩,
    ⟨4, "namespace_aliasing_clause", none, ⟨18, 22⟩⟩, ⟨5, "name", none, ⟨21, 22⟩⟩,
    ⟨1, "namespace_use_declaration", none, ⟨25, 42⟩⟩, ⟨2, "namespace_use_clause", none, ⟨38, 41⟩⟩,
    ⟨3, "qualified_name", none, ⟨38, 41⟩⟩, ⟨4, "namespace_name_as_prefix", none, ⟨38, 40⟩⟩,
    ⟨5, "namespace_name", none, ⟨38, 39⟩⟩, ⟨6, "name", none, ⟨38, 39⟩⟩, ⟨4, "name", none, ⟨40, 41⟩⟩]

theorem imports_of_groupSource :
    let f := ofParts "a.php" groupSource groupOutline
    groupOutline.IsTree ∧ (∀ decl ∈ f.usesIn 0, ¬ UseText.Misread (f.text decl)) ∧
      f.namespaces.map (·.imports) = [f.classImports 0] ∧
      f.classImports 0 = [⟨"B", "A\\B"⟩, ⟨"D", "A\\C"⟩] ∧
      ((f.usesIn 0).flatMap f.clausesOf).Pairwise (fun c d => c.id < d.id ∧ c.start ≤ d.start) := by
  intro f
  have ht : groupOutline.IsTree := by constructor <;> decide +kernel
  have hread : ∀ decl ∈ f.usesIn 0, ¬ UseText.Misread (f.text decl) := by decide +kernel
  let g := Grammar.ofSamples [(groupSource, groupOutline)]
  have hg : g.GivesTrees := by
    refine Grammar.givesTrees_ofSamples ?_
    simpa using ⟨ht, by decide +kernel⟩
  have hparse : parse g "a.php" groupSource = .ok f := parse_of_outline (by decide +kernel) "a.php"
  obtain ⟨himports, -, horder⟩ := imports_of_namespace hg hparse
  obtain ⟨ns, hns⟩ : ∃ ns, f.namespaces = [ns] := List.length_eq_one_iff.1 (by decide +kernel)
  refine ⟨ht, hread, ?_, by decide +kernel, horder (by decide +kernel) 0⟩
  rw [hns, List.map_singleton, himports 0 ns (by rw [hns]; rfl) hread]

/-- A class whose name begins like a keyword, and a keyword behind two spaces. -/
def misreadSource : String := "<?php use Functional\\Option; use  function A\\f;"

/-- The outline of `misreadSource`. -/
def misreadOutline : Outline :=
  [⟨0, "program", none, ⟨0, 47⟩⟩, ⟨1, "php_tag", none, ⟨0, 5⟩⟩,
    ⟨1, "namespace_use_declaration", none, ⟨6, 28⟩⟩, ⟨2, "namespace_use_clause", none, ⟨10, 27⟩⟩,
    ⟨3, "qualified_name", none, ⟨10, 27⟩⟩, ⟨4, "namespace_name_as_prefix", none, ⟨10, 21⟩⟩,
    ⟨5, "namespace_name", none, ⟨10, 20⟩⟩, ⟨6, "name", none, ⟨10, 20⟩⟩, ⟨4, "name", none, ⟨21, 27⟩⟩,
    ⟨1, "namespace_use_declaration", none, ⟨29, 47⟩⟩, ⟨2, "namespace_use_clause", none, ⟨43, 46⟩⟩,
    ⟨3, "qualified_name", none, ⟨43, 46⟩⟩, ⟨4, "namespace_name_as_prefix", none, ⟨43, 45⟩⟩,
    ⟨5, "namespace_name", none, ⟨43, 44⟩⟩, ⟨6, "name", none, ⟨43, 44⟩⟩, ⟨4, "name", none, ⟨45, 46⟩⟩]

/-- The class is dropped and the function is entered. -/
theorem imports_of_misreadSource :
    let f := ofParts "a.php" misreadSource misreadOutline
    misreadOutline.IsTree ∧ f.namespaces.map (·.imports) = [[⟨"f", "A\\f"⟩]] ∧
      f.classImports 0 = [⟨"Option", "Functional\\Option"⟩] :=
  ⟨by constructor <;> decide +kernel, by decide +kernel, by decide +kernel⟩

end SourceFile

end PhpAudit
