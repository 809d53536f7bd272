import Mathlib.Data.List.TakeWhile
import PhpAudit.Proofs.Comment.Twin

/-!
# Where a comment is in the way

Most queries pass comments by. Some read the raw text of a node or take its first or last child, and there
a comment can be in the way: `Clear` lists these places. A comment starts with a slash or a hash, and no
text that the queries look for has one of these (`marked`), so a comment in a text can only hide what was
there: an operator, a scalar cast (`castOf_comment`), or the keyword behind `use` (`saysNoClass_comment`).
-/

namespace PhpAudit.Insertion

/-- Whether a text has a character that starts comments. -/
def marked (s : String) : Bool := s.toList.any (fun c => c == '/' || c == '#')

variable {g : Insertion}

/-! ## Marks -/

theorem marked_iff {s : String} : marked s = true ↔ ∃ c ∈ s.toList, (c == '/' || c == '#') = true :=
  List.any_eq_true

theorem mem_dropWhile {p : Char → Bool} {c : Char} {cs : List Char} (hc : c ∈ cs)
    (hp : p c = false) : c ∈ cs.dropWhile p := by
  induction cs with
  | nil => cases hc
  | cons d cs ih =>
    rw [List.dropWhile_cons]
    split
    · next hd =>
      rcases List.mem_cons.1 hc with rfl | hc
      · rw [hp] at hd; cases hd
      · exact ih hc
    · exact hc

theorem isBlank_of_mark {c : Char} (hc : (c == '/' || c == '#') = true) : Text.isBlank c = false := by
  simp only [Bool.or_eq_true, beq_iff_eq] at hc
  rcases hc with rfl | rfl <;> decide

theorem marked_trim {s : String} (h : marked s = true) : marked (Text.trim s) = true := by
  obtain ⟨c, hc, hmark⟩ := marked_iff.1 h
  have hblank := isBlank_of_mark hmark
  refine marked_iff.2 ⟨c, ?_, hmark⟩
  unfold Text.trim Text.dropEndWhile
  rw [String.toList_ofList, List.mem_reverse]
  exact mem_dropWhile (List.mem_reverse.2 (mem_dropWhile hc hblank)) hblank

theorem marked_stripStart {s : String} {d : Char} (hd : (d == '/' || d == '#') = false)
    (h : marked s = true) : marked (Text.stripStart d s) = true := by
  obtain ⟨c, hc, hmark⟩ := marked_iff.1 h
  refine marked_iff.2 ⟨c, ?_, hmark⟩
  unfold Text.stripStart
  rw [String.toList_ofList]
  refine mem_dropWhile hc ?_
  rw [beq_eq_false_iff_ne]
  rintro rfl
  rw [hd] at hmark
  cases hmark

theorem marked_asciiLower {s : String} (h : marked s = true) : marked (Text.asciiLower s) = true := by
  obtain ⟨c, hc, hmark⟩ := marked_iff.1 h
  refine marked_iff.2 ⟨c, ?_, hmark⟩
  unfold Text.asciiLower
  rw [String.toList_ofList]
  refine List.mem_map.2 ⟨c, hc, ?_⟩
  simp only [Bool.or_eq_true, beq_iff_eq] at hmark
  rcases hmark with rfl | rfl <;> decide

/-- A comment starts with its mark, up to blanks. -/
theorem Valid.exists_mark (hg : g.Valid) :
    ∃ c rest, (c == '/' || c == '#') = true ∧ g.comment.toList = g.lead.toList ++ c :: rest := by
  have hopen : ∃ c, g.text.toList.head? = some c ∧ (c == '/' || c == '#') = true := by
    rcases hg.opens with h | h
    · exact ⟨_, h, by decide⟩
    · exact ⟨_, h, by decide⟩
  obtain ⟨c, hc, hmark⟩ := hopen
  obtain ⟨rest, hrest⟩ := List.head?_eq_some_iff.1 hc
  refine ⟨c, rest ++ g.trail.toList, hmark, ?_⟩
  unfold comment
  rw [String.toList_append, String.toList_append, hrest, List.append_assoc, List.cons_append]

theorem marked_comment (hg : g.Valid) (x y : String) : marked (x ++ (g.comment ++ y)) = true := by
  obtain ⟨c, rest, hmark, hcomment⟩ := hg.exists_mark
  refine marked_iff.2 ⟨c, ?_, hmark⟩
  simp [hcomment]

/-! ## Casts -/

/-- The type that a cast with the given text names. -/
def castOf (s : String) : String :=
  Text.asciiLower (Text.trim (String.ofList ((Text.stripStart '(' s).toList.takeWhile (· != ')'))))

theorem castType_eq (f : SourceFile) (n : Node) : f.castType n = castOf (f.text n) := rfl

/-- A cast whose type ends before the comment keeps its type. -/
theorem castOf_append {x : String} (hx : ')' ∈ (Text.stripStart '(' x).toList) (y : String) :
    castOf (x ++ y) = castOf x := by
  have hstrip : (Text.stripStart '(' (x ++ y)).toList = (Text.stripStart '(' x).toList ++ y.toList := by
    unfold Text.stripStart at hx ⊢
    rw [String.toList_ofList] at hx ⊢
    rw [String.toList_ofList, String.toList_append, List.dropWhile_append, if_neg]
    intro hempty
    rw [List.isEmpty_iff.1 hempty] at hx
    cases hx
  have hshort : ¬ ((Text.stripStart '(' x).toList.takeWhile (· != ')')).length =
      (Text.stripStart '(' x).toList.length := by
    intro hlen
    have hself := (List.takeWhile_prefix (p := (· != ')'))
      (l := (Text.stripStart '(' x).toList)).eq_of_length hlen
    have := List.takeWhile_eq_self_iff.1 hself _ hx
    simp at this
  unfold castOf
  rw [hstrip, List.takeWhile_append, if_neg hshort]

/-- A comment in the type of a cast leaves no scalar cast. -/
theorem castOf_comment (hg : g.Valid) {x : String} (hx : ')' ∉ (Text.stripStart '(' x).toList)
    (y : String) : castOf (x ++ (g.comment ++ y)) ∉ scalarCasts := by
  obtain ⟨c, rest, hmark, hcomment⟩ := hg.exists_mark
  have hlead : ∀ d ∈ g.lead.toList ++ [c], (d == '(') = false ∧ (d != ')') = true := by
    intro d hd
    have hne : d ≠ '(' ∧ d ≠ ')' := by
      rcases List.mem_append.1 hd with hd | hd
      · have hblank := hg.lead_blank d hd
        constructor <;> rintro rfl <;> revert hblank <;> decide
      · rw [List.mem_singleton.1 hd]
        constructor <;> rintro rfl <;> revert hmark <;> decide
    simp [hne]
  have hstrip : (Text.stripStart '(' (x ++ (g.comment ++ y))).toList =
      (Text.stripStart '(' x).toList ++ ((g.lead.toList ++ [c]) ++ (rest ++ y.toList)) := by
    unfold Text.stripStart
    rw [String.toList_ofList, String.toList_ofList, String.toList_append, String.toList_append,
      hcomment, List.dropWhile_append]
    have hcs : g.lead.toList ++ c :: rest ++ y.toList =
        (g.lead.toList ++ [c]) ++ (rest ++ y.toList) := by simp
    rw [hcs]
    split
    · next hempty =>
      rw [List.isEmpty_iff.1 hempty, List.nil_append]
      cases hl : g.lead.toList ++ [c] with
      | nil => simp at hl
      | cons d ds =>
        rw [List.cons_append, List.dropWhile_cons, if_neg]
        rw [(hlead d (by rw [hl]; exact List.mem_cons_self)).1]
        exact Bool.false_ne_true
    · rfl
  have hmem : c ∈ (Text.stripStart '(' (x ++ (g.comment ++ y))).toList.takeWhile (· != ')') := by
    rw [hstrip, ← List.append_assoc, List.takeWhile_append_of_pos]
    · simp
    · intro d hd
      rcases List.mem_append.1 hd with hd | hd
      · simpa using fun h : d = ')' => hx (h ▸ hd)
      · exact (hlead d hd).2
  have hmarked : marked (castOf (x ++ (g.comment ++ y))) = true :=
    marked_asciiLower (marked_trim (marked_iff.2 ⟨c, by rw [String.toList_ofList]; exact hmem, hmark⟩))
  have hscalar : ∀ s ∈ scalarCasts, marked s = false := by decide
  intro hin
  rw [hscalar _ hin] at hmarked
  cases hmarked

/-! ## Imports -/

/-- Whether a declaration with the given text imports functions or constants. -/
def saysNoClass (s : String) : Bool :=
  Text.startsWith (Text.asciiLower (Text.trimStart s)) "use function" ||
    Text.startsWith (Text.asciiLower (Text.trimStart s)) "use const"

theorem importsNoClass_eq (f : SourceFile) (n : Node) :
    f.importsNoClass n = saysNoClass (f.text n) := rfl

theorem toList_asciiLower_trimStart (s : String) :
    (Text.asciiLower (Text.trimStart s)).toList =
      (s.toList.dropWhile Text.isBlank).map Char.toLower := by
  unfold Text.asciiLower Text.trimStart
  rw [String.toList_ofList, String.toList_ofList]

/-- No word is continued by a comment: blanks and then the mark follow. -/
theorem isPrefixOf_append_mark {w a blanks rest : List Char} {c : Char}
    (hlast : w.getLast?.any Text.isBlank = false) (hmark : c ∉ w)
    (hblanks : ∀ d ∈ blanks, Text.isBlank d = true) :
    w.isPrefixOf (a ++ (blanks ++ c :: rest)) = w.isPrefixOf a := by
  rw [Bool.eq_iff_iff, List.isPrefixOf_iff_prefix, List.isPrefixOf_iff_prefix]
  constructor
  · intro h
    rcases List.prefix_or_prefix_of_prefix h (List.prefix_append a _) with hwa | ⟨u, rfl⟩
    · exact hwa
    · -- what `w` has beyond `a` is blank, so there is nothing
      have hu : u <+: blanks ++ c :: rest := (List.prefix_append_right_inj a).1 h
      have hub : u <+: blanks := by
        rcases List.prefix_or_prefix_of_prefix hu (List.prefix_append blanks _) with hub | ⟨v, rfl⟩
        · exact hub
        · cases v with
          | nil => simp
          | cons d v =>
            obtain ⟨rfl, -⟩ := List.cons_prefix_cons.1 ((List.prefix_append_right_inj blanks).1 hu)
            exact absurd (by simp) hmark
      cases hl : u.getLast? with
      | none =>
        simp [List.getLast?_eq_none_iff.1 hl]
      | some d =>
        have hblank := hblanks d (hub.subset (List.mem_of_getLast? hl))
        rw [List.getLast?_append, hl, Option.some_or, Option.any_some, hblank] at hlast
        cases hlast
  · exact fun h => h.trans (List.prefix_append _ _)

theorem toLower_of_isBlank {c : Char} (h : Text.isBlank c = true) : c.toLower = c := by
  unfold Char.toLower
  split
  · next hupper =>
    have hlow : 65 ≤ c.toNat := UInt32.le_iff_toNat_le.1 hupper.1
    have hhigh : c.toNat ≤ 90 := UInt32.le_iff_toNat_le.1 hupper.2
    unfold Text.isBlank at h
    simp only [Bool.or_eq_true, Bool.and_eq_true, decide_eq_true_iff, beq_iff_eq] at h
    omega
  · rfl

theorem isPrefixOf_comment (hg : g.Valid) {w : List Char}
    (hlast : w.getLast?.any Text.isBlank = false)
    (hmark : marked (String.ofList w) = false) (x y : String) :
    w.isPrefixOf (((x ++ (g.comment ++ y)).toList.dropWhile Text.isBlank).map Char.toLower) =
      w.isPrefixOf ((x.toList.dropWhile Text.isBlank).map Char.toLower) := by
  obtain ⟨c, rest, hc, hcomment⟩ := hg.exists_mark
  have hnot : c ∉ w := by
    intro hin
    rw [marked_iff.2 ⟨c, by rwa [String.toList_ofList], hc⟩] at hmark
    cases hmark
  have hlower : c.toLower = c := by
    simp only [Bool.or_eq_true, beq_iff_eq] at hc
    rcases hc with rfl | rfl <;> decide
  have hlead : g.lead.toList.map Char.toLower = g.lead.toList :=
    Eq.trans (List.map_congr_left fun d hd => toLower_of_isBlank (hg.lead_blank d hd)) (List.map_id _)
  have htail : ∃ blanks, (∀ d ∈ blanks, Text.isBlank d = true) ∧
      ((x ++ (g.comment ++ y)).toList.dropWhile Text.isBlank).map Char.toLower =
        (x.toList.dropWhile Text.isBlank).map Char.toLower ++
          (blanks ++ c :: (rest ++ y.toList).map Char.toLower) := by
    rw [String.toList_append, String.toList_append, hcomment, List.dropWhile_append]
    split
    · next hempty =>
      refine ⟨[], by simp, ?_⟩
      have hstop : ¬ Text.isBlank c = true := by simp [isBlank_of_mark hc]
      rw [List.isEmpty_iff.1 hempty, List.append_assoc, List.dropWhile_append_of_pos hg.lead_blank,
        List.cons_append, List.dropWhile_cons, if_neg hstop, List.map_cons, hlower]
      rfl
    · refine ⟨g.lead.toList, hg.lead_blank, ?_⟩
      rw [List.map_append, List.append_assoc, List.map_append, hlead, List.cons_append, List.map_cons,
        hlower]
  obtain ⟨blanks, hblanks, heq⟩ := htail
  rw [heq, isPrefixOf_append_mark hlast hnot hblanks]

theorem saysNoClass_comment (hg : g.Valid) (x y : String) :
    saysNoClass (x ++ (g.comment ++ y)) = saysNoClass x := by
  unfold saysNoClass Text.startsWith
  rw [toList_asciiLower_trimStart, toList_asciiLower_trimStart,
    isPrefixOf_comment hg (by decide) (by decide),
    isPrefixOf_comment hg (by decide) (by decide)]

theorem isPrefixOf_dropWhile_append {w xs : List Char} (hw : w ≠ [])
    (h : w.isPrefixOf ((xs.dropWhile Text.isBlank).map Char.toLower) = true) (ys : List Char) :
    w.isPrefixOf (((xs ++ ys).dropWhile Text.isBlank).map Char.toLower) = true := by
  rw [List.isPrefixOf_iff_prefix] at h ⊢
  rw [List.dropWhile_append, if_neg, List.map_append]
  · exact h.trans (List.prefix_append _ _)
  · intro hempty
    rw [List.isEmpty_iff.1 hempty, List.map_nil] at h
    exact hw (List.prefix_nil.1 h)

theorem saysNoClass_append {x : String} (hx : saysNoClass x = true) (y : String) :
    saysNoClass (x ++ y) = true := by
  unfold saysNoClass Text.startsWith at hx ⊢
  rw [toList_asciiLower_trimStart, Bool.or_eq_true] at hx ⊢
  rw [String.toList_append]
  exact hx.imp (fun h => isPrefixOf_dropWhile_append (by decide) h _)
    fun h => isPrefixOf_dropWhile_append (by decide) h _

/-! ## Clear places -/

/-- Kinds of nodes whose own text is read. -/
def textKinds : List Kind := [.name, .qualifiedName, .relativeScope, .var, .useClause]

/-- Forms of nodes whose own text is read. -/
def textForms : List String := ["name", "qualified_name", "namespace_name"]

/-- Kinds of declarations whose name is read. -/
def namedKinds : List Kind :=
  [.classDecl, .interfaceDecl, .traitDecl, .enumDecl, .method, .namespaceDecl, .parameter]

/-- Kinds of nodes whose first child matters. -/
def headKinds : List Kind := [.subscript, .staticPropertyAccess, .classConstantAccess, .attr]

/-- The node that the comment hangs from. -/
def parent? (g : Insertion) : Option Node :=
  (g.commented.node? g.site).bind g.commented.parent?

/-- The comment stands where no query looks at the raw text or at the first or last child. -/
structure Clear (g : Insertion) : Prop where
  /-- It splits no text that is read as a whole. -/
  names : ∀ n, g.plain.Has n → g.Straddles n.span → n.kind ∉ textKinds ∧ n.form ∉ textForms
  /-- It splits neither the name of a declaration nor that of the property `request`. -/
  declared : ∀ n, g.plain.Has n →
    n.kind ∈ namedKinds ∨ (n.kind = .propertyAccess ∧ n.value = some "request") →
      ∀ m, g.plain.child? n "name" = some m → ¬ g.Straddles m.span
  /-- It is not a first child that matters, as behind an opening parenthesis. -/
  head : ∀ p, g.parent? = some p → p.kind ∈ headKinds ∨ p.form = SourceFile.parenthesized →
    p.children.head? ≠ some g.site
  /-- In a loop it stands neither before what the loop runs over nor behind the body. -/
  loop : ∀ p, g.parent? = some p → p.kind = .foreachLoop →
    p.children.head? ≠ some g.site ∧ p.children.getLast? ≠ some g.site
  /-- In an argument it does not stand before the value. -/
  argument : ∀ p, g.parent? = some p → p.kind = .argument → ∀ v,
    (g.commented.children p).find? (fun c => !c.hasField "name") = some v → v.id ≠ g.site
  /-- It does not stand beside the operator of a concatenation or of a null default. -/
  operator : ∀ n, g.plain.Has n → n.form = "binary_expression" →
    g.plain.operator? n = some "." ∨ g.plain.operator? n = some "??" →
      ∀ l, g.plain.child? n "left" = some l → ∀ r, g.plain.child? n "right" = some r →
        ¬ (l.span.stop ≤ g.offset ∧ g.offset ≤ r.span.start)
  /-- It does not stand inside the parentheses of a scalar cast. -/
  cast : ∀ n, g.plain.Has n → n.form = "cast_expression" → g.plain.castType n ∈ scalarCasts →
    g.Straddles n.span → ∃ x, Text.slice? g.before n.span.start g.offset = some x ∧
      ')' ∈ (Text.stripStart '(' x).toList
  /-- In an import of functions or constants it stands behind the keyword. -/
  imports : ∀ n, g.plain.Has n → n.kind = .useDecl → g.plain.importsNoClass n = true →
    g.Straddles n.span → ∃ x, Text.slice? g.before n.span.start g.offset = some x ∧
      saysNoClass x = true
  /-- A literal that names the input stream still does, and no other does. -/
  input : ∀ n, g.plain.Has n → g.plain.isNamed n "file_get_contents" = true → ∀ a,
    g.plain.argument? n 0 = some a → a.kind = .stringLiteral →
      Text.contains (g.commented.text (g.lift g.commented a)) "php://input" =
        Text.contains (g.plain.text a) "php://input"
  /-- The innermost namespace region around a byte is the same. -/
  regions : ∀ o, Namespace.innermostIdx? (g.commented.regions.map (·.span)) (g.start o) =
    Namespace.innermostIdx? (g.plain.regions.map (·.span)) o

end PhpAudit.Insertion
