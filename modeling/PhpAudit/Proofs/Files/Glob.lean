import Mathlib.Data.List.Basic
import PhpAudit.Files.Exclusion

/-!
# Where a match starts

The default exclusions and the lines of ignore files hold at any depth: their patterns begin with two stars
and a slash, whatever engine compiles them (`isDeep_of_mem_defaults`, `isDeep_of_mem_ofIgnoreFiles`). Such a
pattern matches a path exactly if the rest of it matches what follows some slash of the path
(`matchesChars_deep_iff`), and in a path of two pieces that slash is in the first piece or in the second
(`matchesChars_append_iff`). What the single items of a pattern take of a text is said by
`matchesChars_repetition` and `matchesChars_single`.
-/

namespace PhpAudit.Glob

variable {p rest : Glob} {part : GlobPart} {c : Char} {cs before behind : List Char}

/-! ## Rows -/

/-- A row goes on with the row of the rest of the pattern. -/
theorem rowOf_cons (part : GlobPart) (rest : Glob) (cs : List Char) :
    rowOf (part :: rest) cs = firstOf (rowOf (part :: rest) cs) :: rowOf rest cs := by
  induction cs with
  | nil => rfl
  | cons c cs ih =>
    have hstep : rowOf (part :: rest) (c :: cs) = extendRow c (part :: rest) (rowOf (part :: rest) cs) :=
      rfl
    rw [hstep, ih]
    rfl

theorem firstOf_rowOf_nil (cs : List Char) : firstOf (rowOf [] cs) = cs.isEmpty := by
  cases cs <;> rfl

theorem firstOf_rowOf_cons (part : GlobPart) (rest : Glob) (c : Char) (cs : List Char) :
    firstOf (rowOf (part :: rest) (c :: cs)) =
      if isOptional part then
        (repeats part c && firstOf (rowOf (part :: rest) cs)) || firstOf (rowOf rest (c :: cs))
      else accepts part c && firstOf (rowOf rest cs) := by
  have hstep : rowOf (part :: rest) (c :: cs) = extendRow c (part :: rest) (rowOf (part :: rest) cs) :=
    rfl
  rw [hstep, rowOf_cons part rest cs]
  rfl

/-- A match is what the row of the text says of the whole pattern. -/
theorem matchesChars_eq (p : Glob) (cs : List Char) : matchesChars p cs = firstOf (rowOf p cs) := by
  induction p generalizing cs with
  | nil => rw [firstOf_rowOf_nil]; rfl
  | cons part rest ih =>
    unfold matchesChars
    by_cases hpart : isOptional part = true
    · rw [if_pos hpart]
    · rw [if_neg hpart]
      cases cs with
      | nil =>
        have hfirst : firstOf (rowOf (part :: rest) []) = (isOptional part && firstOf (rowOf rest [])) := rfl
        simp [hfirst, hpart]
      | cons c cs => rw [firstOf_rowOf_cons, if_neg hpart]; dsimp only; rw [ih]

/-- A repetition takes a beginning of the text, character by character, and leaves what follows to the rest. -/
theorem matchesChars_repetition (hpart : isOptional part = true) :
    matchesChars (part :: rest) cs = true ↔
      ∃ taken behind, cs = taken ++ behind ∧ (∀ c ∈ taken, repeats part c = true) ∧
        matchesChars rest behind = true := by
  induction cs with
  | nil =>
    have hempty : matchesChars (part :: rest) [] = matchesChars rest [] := by
      have hfirst : firstOf (rowOf (part :: rest) []) = (isOptional part && firstOf (rowOf rest [])) := rfl
      rw [matchesChars_eq, matchesChars_eq, hfirst, hpart, Bool.true_and]
    simp [hempty]
  | cons c cs ih =>
    have hstep : matchesChars (part :: rest) (c :: cs) =
        ((repeats part c && matchesChars (part :: rest) cs) || matchesChars rest (c :: cs)) := by
      rw [matchesChars_eq, firstOf_rowOf_cons, matchesChars_eq, matchesChars_eq, if_pos hpart]
    rw [hstep, Bool.or_eq_true, Bool.and_eq_true, ih]
    constructor
    · rintro (⟨hc, taken, behind, rfl, htaken, hmatch⟩ | hmatch)
      · exact ⟨c :: taken, behind, rfl, List.forall_mem_cons.2 ⟨hc, htaken⟩, hmatch⟩
      · exact ⟨[], c :: cs, rfl, by simp, hmatch⟩
    · rintro ⟨taken, behind, hsplit, htaken, hmatch⟩
      cases taken with
      | nil =>
        rw [List.nil_append] at hsplit
        exact .inr (hsplit ▸ hmatch)
      | cons d taken =>
        obtain ⟨rfl, rfl⟩ := List.cons.inj hsplit
        obtain ⟨hc, htaken⟩ := List.forall_mem_cons.1 htaken
        exact .inl ⟨hc, taken, behind, rfl, htaken, hmatch⟩

/-- Any other item takes one character. -/
theorem matchesChars_single (hpart : isOptional part = false) :
    matchesChars (part :: rest) cs = true ↔
      ∃ c behind, cs = c :: behind ∧ accepts part c = true ∧ matchesChars rest behind = true := by
  cases cs with
  | nil => simp [matchesChars, hpart]
  | cons d cs => simp [matchesChars, hpart]

theorem forall_repeats_iff (part : GlobPart) (d : Char) (hpart : ∀ c, repeats part c = (c != d))
    {taken : List Char} : (∀ c ∈ taken, repeats part c = true) ↔ d ∉ taken := by
  simp only [hpart, bne_iff_ne]
  exact ⟨fun h hmem => h d hmem rfl, fun h c hc heq => h (heq ▸ hc)⟩

theorem accepts_literal (d c : Char) : accepts (.literal d) c = (c == d) := rfl

theorem accepts_anyChar (c : Char) : accepts .anyChar c = (c != '\n') := rfl

theorem matchesChars_literal_cons : matchesChars (.literal c :: rest) cs = true ↔
    ∃ behind, cs = c :: behind ∧ matchesChars rest behind = true := by
  rw [matchesChars_single rfl]
  simp [accepts_literal]

theorem matchesChars_anyPath_cons : matchesChars (.anyPath :: rest) cs = true ↔
    ∃ k ≤ cs.length, '\n' ∉ cs.take k ∧ matchesChars rest (cs.drop k) = true := by
  rw [matchesChars_repetition rfl]
  simp only [forall_repeats_iff .anyPath '\n' fun _ => rfl]
  constructor
  · rintro ⟨taken, behind, rfl, htaken, hmatch⟩
    exact ⟨taken.length, by simp, by simpa using htaken, by simpa using hmatch⟩
  · rintro ⟨k, -, htaken, hmatch⟩
    exact ⟨cs.take k, cs.drop k, (List.take_append_drop k cs).symm, htaken, hmatch⟩

/-! ## Deep patterns -/

/-- The pattern begins with two stars and a slash. -/
def IsDeep (p : Glob) : Prop := ∃ rest, p = .anyPath :: .literal '/' :: rest

/-- Whether what follows a deep pattern's slash matches what follows the character at a position, and that
character is a slash which two stars can reach. -/
def startsAt (p : Glob) (cs : List Char) (k : Nat) : Bool :=
  cs[k]? == some '/' && !(cs.take k).contains '\n' && matchesChars (p.drop 2) (cs.drop (k + 1))

theorem startsAt_iff {k : Nat} : startsAt p cs k = true ↔
    cs[k]? = some '/' ∧ '\n' ∉ cs.take k ∧ matchesChars (p.drop 2) (cs.drop (k + 1)) = true := by
  simp [startsAt, and_assoc]

theorem matchesChars_deep_iff (hp : p.IsDeep) :
    matchesChars p cs = true ↔ ∃ k, startsAt p cs k = true := by
  obtain ⟨rest, rfl⟩ := hp
  simp only [matchesChars_anyPath_cons, matchesChars_literal_cons, startsAt_iff]
  constructor
  · rintro ⟨k, -, hfree, behind, hdrop, hmatch⟩
    refine ⟨k, ?_, hfree, ?_⟩
    · rw [← Nat.add_zero k, ← List.getElem?_drop, hdrop]
      rfl
    · rw [← List.drop_drop, hdrop]
      exact hmatch
  · rintro ⟨k, hslash, hfree, hmatch⟩
    obtain ⟨hk, heq⟩ := List.getElem?_eq_some_iff.1 hslash
    exact ⟨k, Nat.le_of_lt hk, hfree, _, by rw [List.drop_eq_getElem_cons hk, heq], hmatch⟩

theorem startsAt_append (hfree : '\n' ∉ before) (k : Nat) :
    startsAt p (before ++ cs) (before.length + k) = startsAt p cs k := by
  rw [Bool.eq_iff_iff, startsAt_iff, startsAt_iff, List.getElem?_append_right (Nat.le_add_right _ _),
    Nat.add_sub_cancel_left, List.take_length_add_append, Nat.add_assoc, List.drop_length_add_append]
  simp [hfree]

/-- The slash at which a match starts is in the first piece of a text or in the second. -/
theorem matchesChars_append_iff (hp : p.IsDeep) (hfree : '\n' ∉ before) :
    matchesChars p (before ++ cs) = true ↔
      (∃ k < before.length, startsAt p (before ++ cs) k = true) ∨ matchesChars p cs = true := by
  rw [matchesChars_deep_iff hp, matchesChars_deep_iff hp]
  constructor
  · rintro ⟨k, hk⟩
    rcases Nat.lt_or_ge k before.length with hlt | hge
    · exact .inl ⟨k, hlt, hk⟩
    · obtain ⟨j, rfl⟩ := Nat.exists_eq_add_of_le hge
      exact .inr ⟨j, by rwa [startsAt_append hfree] at hk⟩
  · rintro (⟨k, -, hk⟩ | ⟨j, hj⟩)
    · exact ⟨k, hk⟩
    · exact ⟨before.length + j, by rwa [startsAt_append hfree]⟩

/-! ## Compiling -/

namespace Engine

/-- Patterns with no more items than this are short. -/
def shortLength : Nat := 512

/-- The engine compiles short patterns: what it may refuse is a pattern that becomes too large, and its limit is far
above what these come to. -/
def TakesShort (engine : Engine) : Prop := ∀ p : Glob, p.length ≤ shortLength → engine p = none

theorem takesShort_unlimited : unlimited.TakesShort := fun _ _ => rfl

theorem compile_eq_ok_iff {engine : Engine} {q : Glob} :
    engine.compile q = .ok p ↔ engine q = none ∧ p = q := by
  unfold compile
  cases engine q <;> simp [eq_comm]

theorem toOption_compile_eq_some_iff {engine : Engine} {q : Glob} :
    (engine.compile q).toOption = some p ↔ engine q = none ∧ p = q := by
  rw [← compile_eq_ok_iff]
  cases engine.compile q <;> simp [Except.toOption]

end Engine

/-! ## Patterns that are deep -/

theorem isDeep_of_parseExclude {engine : Engine} {pattern : String} (hstart : "**/".toList <+: pattern.toList)
    (h : parseExclude engine pattern = .ok p) : p.IsDeep := by
  have hread : ∀ {s : String}, "**/".toList <+: s.toList → parse engine s = .ok p → p.IsDeep := by
    intro s hs hparse
    obtain ⟨tail, htail⟩ := hs
    unfold parse read at hparse
    split at hparse
    · cases hparse
    · obtain ⟨-, rfl⟩ := Engine.compile_eq_ok_iff.1 hparse
      exact ⟨partsOf tail, by rw [← htail]; rfl⟩
  unfold parseExclude at h
  split at h
  · refine hread ?_ h
    rw [String.toList_append]
    exact hstart.trans (List.prefix_append _ _)
  · exact hread hstart h

theorem isDeep_of_mem_validOnly {engine : Engine} {patterns : List String}
    (hstart : ∀ s ∈ patterns, "**/".toList <+: s.toList) (h : p ∈ Exclusion.validOnly engine patterns) :
    p.IsDeep := by
  obtain ⟨s, hs, hp⟩ := List.mem_filterMap.1 h
  refine isDeep_of_parseExclude (hstart s hs) (?_ : parseExclude engine s = .ok p)
  cases hparse : parseExclude engine s with
  | error e => simp [hparse, Except.toOption] at hp
  | ok q => simpa [hparse, Except.toOption] using hp

theorem isDeep_of_mem_defaults {engine : Engine} (h : p ∈ Exclusion.defaults engine) : p.IsDeep :=
  isDeep_of_mem_validOnly (by decide) h

theorem prefix_of_ignorePattern? {line pattern : String}
    (h : Exclusion.ignorePattern? line = some pattern) : "**/".toList <+: pattern.toList := by
  unfold Exclusion.ignorePattern? at h
  dsimp only at h
  split at h
  · cases h
  · split at h
    · next hstart =>
      obtain rfl := Option.some.inj h
      rwa [Text.startsWith, List.isPrefixOf_iff_prefix] at hstart
    · obtain rfl := Option.some.inj h
      rw [String.toList_append]
      exact List.prefix_append _ _

theorem isDeep_of_mem_ofIgnoreFiles {engine : Engine} {t : FileTree} {root : String}
    (h : p ∈ Exclusion.ofIgnoreFiles engine t root) : p.IsDeep := by
  obtain ⟨name, -, hp⟩ := List.mem_flatMap.1 h
  split at hp
  · refine isDeep_of_mem_validOnly (fun s hs => ?_) hp
    obtain ⟨line, -, hline⟩ := List.mem_filterMap.1 hs
    exact prefix_of_ignorePattern? hline
  · cases hp

end PhpAudit.Glob
