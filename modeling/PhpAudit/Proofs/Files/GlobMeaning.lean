import PhpAudit.Proofs.Files.Glob

/-!
# What a pattern stands for

`Stands` reads a pattern from left to right and splits a text along it. The matcher works on the items of a
pattern and from the end of the text; it accepts exactly the texts that can be split (`matchesChars_partsOf`).

A pattern is shown as a regular expression. `Regex.parse?` reads the syntax that is needed for this: characters
that stand for themselves or behind a backslash, the dot, a class of all characters but one, a star behind
any of these, and the two anchors. A search by the expression of a pattern finds a match exactly in the texts
that the matcher accepts (`isMatch_regex`), although a search may start and end anywhere and a star may
take as much as it likes. So `read_exact` ties the three together: the splitting, the matcher and the
expression.
-/

namespace PhpAudit

/-! ## Splitting a text along a pattern -/

namespace Glob

/-- A pattern stands for a text. Two stars stand for any text without a line feed, and stars are taken two at a
time; a star that is left over stands for any text without a slash, a question mark for any character but a
line feed, and every other character for itself. -/
inductive Stands : List Char → List Char → Prop
  | nil : Stands [] []
  | twoStars {pattern taken text : List Char} (hfree : '\n' ∉ taken) (hrest : Stands pattern text) :
      Stands ('*' :: '*' :: pattern) (taken ++ text)
  | star {pattern taken text : List Char} (hlone : pattern.head? ≠ some '*') (hfree : '/' ∉ taken)
      (hrest : Stands pattern text) : Stands ('*' :: pattern) (taken ++ text)
  | mark {pattern text : List Char} {c : Char} (hc : c ≠ '\n') (hrest : Stands pattern text) :
      Stands ('?' :: pattern) (c :: text)
  | self {pattern text : List Char} {c : Char} (hstar : c ≠ '*') (hmark : c ≠ '?')
      (hrest : Stands pattern text) : Stands (c :: pattern) (c :: text)

theorem partsOf_star {pattern : List Char} (hlone : ∀ tail, pattern = '*' :: tail → False) :
    partsOf ('*' :: pattern) = .anySegment :: partsOf pattern := by
  rw [partsOf]
  exact hlone

theorem partsOf_self {pattern : List Char} {c : Char} (hstar : c ≠ '*') (hmark : c ≠ '?') :
    partsOf (c :: pattern) = .literal c :: partsOf pattern := by
  rw [partsOf]
  · exact fun _ h => absurd h hstar
  · exact hstar
  · exact hmark

/-- The matcher accepts what can be split along the pattern. -/
theorem matchesChars_partsOf (pattern text : List Char) :
    matchesChars (partsOf pattern) text = true ↔ Stands pattern text := by
  induction pattern using partsOf.induct generalizing text with
  | case1 =>
    rw [partsOf, matchesChars, List.isEmpty_iff]
    constructor
    · rintro rfl
      exact .nil
    · rintro ⟨⟩
      rfl
  | case2 pattern ih =>
    rw [partsOf, matchesChars_repetition rfl]
    simp only [forall_repeats_iff .anyPath '\n' fun _ => rfl, ih]
    constructor
    · rintro ⟨taken, behind, rfl, hfree, hrest⟩
      exact .twoStars hfree hrest
    · intro h
      cases h with
      | twoStars hfree hrest => exact ⟨_, _, rfl, hfree, hrest⟩
      | star hlone => exact absurd rfl hlone
      | self hstar => exact absurd rfl hstar
  | case3 pattern hlone ih =>
    rw [partsOf_star hlone, matchesChars_repetition rfl]
    simp only [forall_repeats_iff .anySegment '/' fun _ => rfl, ih]
    constructor
    · rintro ⟨taken, behind, rfl, hfree, hrest⟩
      refine .star (fun hhead => ?_) hfree hrest
      obtain ⟨tail, rfl⟩ := List.head?_eq_some_iff.1 hhead
      exact hlone tail rfl
    · intro h
      cases h with
      | twoStars => exact absurd rfl (hlone _)
      | star _ hfree hrest => exact ⟨_, _, rfl, hfree, hrest⟩
      | self hstar => exact absurd rfl hstar
  | case4 pattern ih =>
    rw [partsOf, matchesChars_single rfl]
    simp only [accepts_anyChar, bne_iff_ne, ih]
    constructor
    · rintro ⟨c, behind, rfl, hc, hrest⟩
      exact .mark hc hrest
    · intro h
      cases h with
      | mark hc hrest => exact ⟨_, _, rfl, hc, hrest⟩
      | self _ hmark => exact absurd rfl hmark
  | case5 c pattern _ hstar hmark ih =>
    rw [partsOf_self hstar hmark, matchesChars_literal_cons]
    simp only [ih]
    constructor
    · rintro ⟨behind, rfl, hrest⟩
      exact .self hstar hmark hrest
    · intro h
      cases h with
      | twoStars => exact absurd rfl hstar
      | star => exact absurd rfl hstar
      | mark => exact absurd rfl hmark
      | self _ _ hrest => exact ⟨_, rfl, hrest⟩

/-- A character that a pattern has for itself is written in it, and neither a star nor a question mark. -/
theorem of_literal_mem_partsOf {pattern : List Char} {c : Char} (h : .literal c ∈ partsOf pattern) :
    c ∈ pattern ∧ c ≠ '*' ∧ c ≠ '?' := by
  induction pattern using partsOf.induct with
  | case1 => cases h
  | case2 pattern ih =>
    rw [partsOf] at h
    obtain ⟨hmem, hc⟩ := ih (List.mem_of_ne_of_mem (by simp) h)
    exact ⟨by simp [hmem], hc⟩
  | case3 pattern hlone ih =>
    rw [partsOf_star hlone] at h
    obtain ⟨hmem, hc⟩ := ih (List.mem_of_ne_of_mem (by simp) h)
    exact ⟨by simp [hmem], hc⟩
  | case4 pattern ih =>
    rw [partsOf] at h
    obtain ⟨hmem, hc⟩ := ih (List.mem_of_ne_of_mem (by simp) h)
    exact ⟨by simp [hmem], hc⟩
  | case5 d pattern _ hstar hmark ih =>
    rw [partsOf_self hstar hmark] at h
    rcases List.mem_cons.1 h with heq | h
    · obtain rfl := GlobPart.literal.inj heq
      exact ⟨List.mem_cons_self, hstar, hmark⟩
    · obtain ⟨hmem, hc⟩ := ih h
      exact ⟨List.mem_cons_of_mem _ hmem, hc⟩

end Glob

/-! ## Regular expressions -/

/-- What stands for one character in a regular expression. -/
inductive CharSet
  | only (c : Char)
  | allBut (c : Char)
  deriving DecidableEq, Repr

/-- Whether a character is in a set. -/
def CharSet.holds : CharSet → Char → Bool
  | only d, c => c == d
  | allBut d, c => c != d

/-- One item of a regular expression. -/
inductive RegexItem
  /-- The start of the text. -/
  | start
  /-- The end of the text. -/
  | finish
  /-- One character. -/
  | one (set : CharSet)
  /-- Any number of characters. -/
  | many (set : CharSet)
  deriving DecidableEq, Repr

/-- A regular expression, its items in a row. -/
abbrev Regex := List RegexItem

namespace Regex

/-- What a regular expression is written in. -/
inductive Token
  | start
  | finish
  | set (set : CharSet)
  | star
  deriving DecidableEq, Repr

/-- The characters that have a meaning of their own. Behind a backslash they stand for themselves. -/
def specialChars : List Char :=
  ['\\', '.', '+', '*', '?', '(', ')', '|', '[', ']', '\x7b', '\x7d', '^', '$']

/-- The characters that have a meaning of their own between brackets. -/
def bracketChars : List Char := ['\\', '[', ']', '^', '-', '&', '~']

/-- The tokens of an expression. Of the syntax with brackets only the class of all characters but one is read. -/
def tokens? : List Char → Option (List Token)
  | [] => some []
  | '\\' :: c :: cs => if specialChars.contains c then (tokens? cs).map (.set (.only c) :: ·) else none
  | '[' :: '^' :: c :: ']' :: cs =>
    if bracketChars.contains c then none else (tokens? cs).map (.set (.allBut c) :: ·)
  | '^' :: cs => (tokens? cs).map (.start :: ·)
  | '$' :: cs => (tokens? cs).map (.finish :: ·)
  | '.' :: cs => (tokens? cs).map (.set (.allBut '\n') :: ·)
  | '*' :: cs => (tokens? cs).map (.star :: ·)
  | c :: cs => if specialChars.contains c then none else (tokens? cs).map (.set (.only c) :: ·)

theorem tokens?_self {c : Char} (hc : c ∉ specialChars) (cs : List Char) :
    tokens? (c :: cs) = (tokens? cs).map (.set (.only c) :: ·) := by
  have hne : ∀ d ∈ specialChars, c ≠ d := fun d hd heq => hc (heq ▸ hd)
  simp only [specialChars, List.forall_mem_cons] at hne
  rw [tokens?]
  · rw [if_neg (by simpa using hc)]
  all_goals grind

/-- The items that tokens make up. A star belongs to the set in front of it. -/
def items? : List Token → Option Regex
  | [] => some []
  | .set s :: .star :: ts => (items? ts).map (.many s :: ·)
  | .set s :: ts => (items? ts).map (.one s :: ·)
  | .start :: ts => (items? ts).map (.start :: ·)
  | .finish :: ts => (items? ts).map (.finish :: ·)
  | .star :: _ => none

/-- Reads a regular expression. -/
def parse? (s : String) : Option Regex := (tokens? s.toList).bind items?

example : parse? "^.*/a\\.[^/]*$" = some [.start, .many (.allBut '\n'), .one (.only '/'), .one (.only 'a'),
    .one (.only '.'), .many (.allBut '/'), .finish] := by
  decide +kernel

/-- An expression reads a stretch of a text, given what is before the stretch and behind it. -/
def Reads : Regex → List Char → List Char → List Char → Prop
  | [], _, found, _ => found = []
  | .start :: r, before, found, behind => before = [] ∧ Reads r before found behind
  | .finish :: r, before, found, behind => found ++ behind = [] ∧ Reads r before found behind
  | .one set :: r, before, found, behind =>
    ∃ c rest, found = c :: rest ∧ set.holds c = true ∧ Reads r (before ++ [c]) rest behind
  | .many set :: r, before, found, behind =>
    ∃ taken rest, found = taken ++ rest ∧ (∀ c ∈ taken, set.holds c = true) ∧
      Reads r (before ++ taken) rest behind

/-- A search by the expression succeeds: it reads some stretch of the text. -/
def IsMatch (r : Regex) (s : String) : Prop :=
  ∃ before found behind, s.toList = before ++ found ++ behind ∧ r.Reads before found behind

end Regex

/-! ## The expression of a pattern -/

namespace Glob

/-- The characters that an item of a pattern takes. -/
def charSet : GlobPart → CharSet
  | .anyPath | .anyChar => .allBut '\n'
  | .anySegment => .allBut '/'
  | .literal c => .only c

/-- What an item of a pattern is in a regular expression. -/
def regexItem (part : GlobPart) : RegexItem :=
  if isOptional part then .many (charSet part) else .one (charSet part)

/-- The tokens of an item of a pattern. -/
def regexTokens (part : GlobPart) : List Regex.Token :=
  .set (charSet part) :: if isOptional part then [.star] else []

variable {part : GlobPart} {p : Glob}

theorem repeats_eq (hpart : isOptional part = true) (c : Char) :
    repeats part c = (charSet part).holds c := by
  cases part with
  | anyPath => rfl
  | anySegment => rfl
  | anyChar => cases hpart
  | literal d => cases hpart

theorem accepts_eq (hpart : isOptional part = false) (c : Char) :
    accepts part c = (charSet part).holds c := by
  cases part with
  | anyPath => cases hpart
  | anySegment => cases hpart
  | anyChar => rfl
  | literal d => rfl

/-- An item is written in its tokens, whatever follows. A character that stands for itself gets a backslash if it
is special, unless it is one of the signs of a pattern, which never stand for themselves. -/
theorem tokens?_partRegex (hpart : ∀ c, part = .literal c → c ≠ '*' ∧ c ≠ '?' ∧ c ≠ '[' ∧ c ≠ ']')
    (cs : List Char) :
    Regex.tokens? ((partRegex part).toList ++ cs) = (Regex.tokens? cs).map (regexTokens part ++ ·) := by
  cases part with
  | anyPath =>
    show Regex.tokens? ('.' :: '*' :: cs) = _
    simp only [Regex.tokens?, Option.map_map]
    rfl
  | anySegment =>
    show Regex.tokens? ('[' :: '^' :: '/' :: ']' :: '*' :: cs) = _
    rw [Regex.tokens?, if_neg (by decide), Regex.tokens?, Option.map_map]
    rfl
  | anyChar => rfl
  | literal c =>
    obtain ⟨hstar, hmark, hopen, hclose⟩ := hpart c rfl
    have hmetas : ∀ d ∈ metaChars, d ∈ Regex.specialChars := by
      simp only [metaChars, Regex.specialChars, List.forall_mem_cons]
      simp
    have hspecials : ∀ d ∈ Regex.specialChars,
        d ∈ metaChars ∨ d = '*' ∨ d = '?' ∨ d = '[' ∨ d = ']' := by
      simp only [metaChars, Regex.specialChars, List.forall_mem_cons]
      simp
    have hspecial : c ∈ Regex.specialChars ↔ c ∈ metaChars :=
      ⟨fun h => (hspecials c h).resolve_right (by simp [hstar, hmark, hopen, hclose]), hmetas c⟩
    by_cases hmeta : c ∈ metaChars
    · have htext : (partRegex (.literal c)).toList = ['\\', c] := by simp [partRegex, hmeta]
      rw [htext, List.cons_append, List.cons_append, List.nil_append, Regex.tokens?,
        if_pos (List.contains_iff_mem.2 (hspecial.2 hmeta))]
      rfl
    · have htext : (partRegex (.literal c)).toList = [c] := by simp [partRegex, hmeta]
      rw [htext, List.cons_append, List.nil_append, Regex.tokens?_self (hspecial.not.2 hmeta)]
      rfl

/-- No character that a pattern has for itself is one of the signs of a pattern. -/
def Plain (p : Glob) : Prop :=
  ∀ c, .literal c ∈ p → c ≠ '*' ∧ c ≠ '?' ∧ c ≠ '[' ∧ c ≠ ']'

theorem tokens?_parts (hp : p.Plain) (cs : List Char) :
    Regex.tokens? (p.flatMap (fun part => (partRegex part).toList) ++ cs) =
      (Regex.tokens? cs).map (p.flatMap regexTokens ++ ·) := by
  induction p with
  | nil => simp
  | cons part p ih =>
    have hpart : ∀ c, part = .literal c → c ≠ '*' ∧ c ≠ '?' ∧ c ≠ '[' ∧ c ≠ ']' :=
      fun c heq => hp c (heq ▸ List.mem_cons_self)
    rw [List.flatMap_cons, List.append_assoc, tokens?_partRegex hpart,
      ih fun c hc => hp c (List.mem_cons_of_mem _ hc), Option.map_map]
    simp [Function.comp_def]

/-- Every item starts with a set, so a star belongs to the item that it stands in. -/
theorem items?_parts (p : Glob) {ts : List Regex.Token} (hts : ts.head? ≠ some .star) :
    Regex.items? (p.flatMap regexTokens ++ ts) = (Regex.items? ts).map (p.map regexItem ++ ·) := by
  induction p with
  | nil => simp
  | cons part p ih =>
    have hnext : (p.flatMap regexTokens ++ ts).head? ≠ some .star := by
      cases p with
      | nil => exact hts
      | cons part p => simp [regexTokens]
    rw [List.flatMap_cons, List.append_assoc, List.map_cons]
    cases hpart : isOptional part with
    | true => simp [regexTokens, regexItem, hpart, Regex.items?, ih, Function.comp_def]
    | false =>
      have hone : Regex.items? (.set (charSet part) :: (p.flatMap regexTokens ++ ts)) =
          (Regex.items? (p.flatMap regexTokens ++ ts)).map (.one (charSet part) :: ·) := by
        rw [Regex.items?]
        intro tail htail
        exact hnext (by rw [htail]; rfl)
      simp [regexTokens, regexItem, hpart, hone, ih, Function.comp_def]

theorem parse?_regex (hp : p.Plain) :
    Regex.parse? p.regex = some (.start :: (p.map regexItem ++ [.finish])) := by
  have htext : p.regex.toList =
      '^' :: (p.flatMap (fun part => (partRegex part).toList) ++ ['$']) := by
    simp [regex, String.toList_join, List.flatMap_map]
  have hend : Regex.tokens? ['$'] = some [.finish] := rfl
  unfold Regex.parse?
  rw [htext, Regex.tokens?, tokens?_parts hp, hend, Option.map_some, Option.map_some, Option.bind_some,
    Regex.items?, items?_parts p (by simp)]
  rfl

/-- Up to the end of the text, the items of a pattern read what the matcher accepts. -/
theorem reads_regexItems {before found behind : List Char} :
    Regex.Reads (p.map regexItem ++ [.finish]) before found behind ↔
      matchesChars p found = true ∧ behind = [] := by
  induction p generalizing before found with
  | nil =>
    simp only [List.map_nil, List.nil_append, Regex.Reads, matchesChars, List.append_eq_nil_iff,
      List.isEmpty_iff]
    tauto
  | cons part p ih =>
    rw [List.map_cons, List.cons_append, regexItem]
    cases hpart : isOptional part with
    | true =>
      rw [if_pos rfl, matchesChars_repetition hpart]
      simp only [Regex.Reads, ih, repeats_eq hpart]
      constructor
      · rintro ⟨taken, rest, hfound, htaken, hmatch, rfl⟩
        exact ⟨⟨taken, rest, hfound, htaken, hmatch⟩, rfl⟩
      · rintro ⟨⟨taken, rest, hfound, htaken, hmatch⟩, rfl⟩
        exact ⟨taken, rest, hfound, htaken, hmatch, rfl⟩
    | false =>
      rw [if_neg (by simp), matchesChars_single hpart]
      simp only [Regex.Reads, ih, accepts_eq hpart]
      constructor
      · rintro ⟨c, rest, hfound, hc, hmatch, rfl⟩
        exact ⟨⟨c, rest, hfound, hc, hmatch⟩, rfl⟩
      · rintro ⟨⟨c, rest, hfound, hc, hmatch⟩, rfl⟩
        exact ⟨c, rest, hfound, hc, hmatch, rfl⟩

/-- A search by the expression of a pattern succeeds where the matcher does. The anchors leave it no choice of
where to start and to end. -/
theorem isMatch_regex (p : Glob) (s : String) :
    Regex.IsMatch (.start :: (p.map regexItem ++ [.finish])) s ↔ p.matchesText s = true := by
  unfold Regex.IsMatch matchesText
  simp only [Regex.Reads, reads_regexItems]
  constructor
  · rintro ⟨before, found, behind, hsplit, rfl, hmatch, rfl⟩
    rw [hsplit]
    simpa using hmatch
  · intro hmatch
    exact ⟨[], s.toList, [], by simp, rfl, hmatch, rfl⟩

/-! ## Reading a pattern -/

theorem read_cases (pattern : String) :
    (read pattern = .error .characterClass ∧ ('[' ∈ pattern.toList ∨ ']' ∈ pattern.toList)) ∨
      (read pattern = .ok (partsOf pattern.toList) ∧ '[' ∉ pattern.toList ∧ ']' ∉ pattern.toList) := by
  have hbracket : pattern.toList.any (fun c => c == '[' || c == ']') = true ↔
      '[' ∈ pattern.toList ∨ ']' ∈ pattern.toList := by
    simp only [List.any_eq_true, Bool.or_eq_true, beq_iff_eq]
    constructor
    · rintro ⟨c, hc, rfl | rfl⟩
      · exact .inl hc
      · exact .inr hc
    · rintro (hc | hc)
      · exact ⟨_, hc, .inl rfl⟩
      · exact ⟨_, hc, .inr rfl⟩
  unfold read
  split
  · next h => exact .inl ⟨rfl, hbracket.1 h⟩
  · next h => exact .inr ⟨rfl, not_or.1 (mt hbracket.2 h)⟩

theorem plain_partsOf {pattern : List Char} (hopen : '[' ∉ pattern) (hclose : ']' ∉ pattern) :
    (partsOf pattern).Plain := by
  intro c hc
  obtain ⟨hmem, hstar, hmark⟩ := of_literal_mem_partsOf hc
  exact ⟨hstar, hmark, fun heq => hopen (heq ▸ hmem), fun heq => hclose (heq ▸ hmem)⟩

theorem parse_of_read (engine : Engine) {pattern : String} (h : read pattern = .ok p) :
    parse engine pattern = engine.compile p := by
  unfold parse
  rw [h]
  rfl

/-- Patterns are read and matched exactly. A pattern is refused if and only if it has a bracket. Otherwise the
matcher accepts the texts that the pattern stands for, and the regular expression that the pattern is shown
as is well formed and finds a match in the same texts. Only an engine that refuses to compile it can keep such a
pattern from being used. -/
theorem read_exact (pattern : String) :
    ((∃ e, read pattern = .error e) ↔ '[' ∈ pattern.toList ∨ ']' ∈ pattern.toList) ∧
      ∀ p, read pattern = .ok p →
        (∀ s, p.matchesText s = true ↔ Stands pattern.toList s.toList) ∧
        (∃ r, Regex.parse? p.regex = some r ∧ ∀ s, r.IsMatch s ↔ Stands pattern.toList s.toList) ∧
        ∀ engine, parse engine pattern = engine.compile p := by
  rcases read_cases pattern with ⟨hread, hbracket⟩ | ⟨hread, hopen, hclose⟩
  · refine ⟨⟨fun _ => hbracket, fun _ => ⟨_, hread⟩⟩, fun p hp => ?_⟩
    rw [hread] at hp
    cases hp
  · refine ⟨⟨fun ⟨e, he⟩ => ?_, fun h => absurd h (not_or.2 ⟨hopen, hclose⟩)⟩, fun p hp => ?_⟩
    · rw [hread] at he
      cases he
    · obtain rfl := Except.ok.inj (hread.symm.trans hp)
      have hmatch : ∀ s, (partsOf pattern.toList).matchesText s = true ↔ Stands pattern.toList s.toList :=
        fun s => matchesChars_partsOf _ _
      refine ⟨hmatch, ⟨_, parse?_regex (plain_partsOf hopen hclose), fun s => ?_⟩,
        fun engine => parse_of_read engine hp⟩
      rw [isMatch_regex, hmatch]

end Glob

end PhpAudit
