import Mathlib.Data.List.SplitBy
import PhpAudit.Proofs.Hierarchy.Reachability
import PhpAudit.Rule.Sensitive

/-!
# The words of a parameter name

A name is cut at every separator and before every hump, which is a capital letter behind a small letter or a
digit; `pieces` says so of the name as it is written. The words are found in one pass that holds no more than the
letters of the present word, in lower case, and are the pieces in lower case (`words_eq`). So no character is
lost, repeated or moved, and a name speaks of a secret exactly if a term stands in it anywhere or a short term
fills one of its pieces (`isSensitive_iff`).
-/

namespace PhpAudit

/-! ## Lower case -/

namespace Text

theorem lowerChar_ne_nil (c : Char) : lowerChar c ≠ [] := by
  unfold lowerChar
  split
  · exact List.cons_ne_nil _ _
  · split
    · exact List.cons_ne_nil _ _
    · split <;> exact List.cons_ne_nil _ _

/-- The small letters of capital letters beyond ASCII stand behind the ASCII capitals. -/
theorem lt_of_mem_shiftTable {shift : Shift} (h : shift ∈ shiftTable) :
    0x5F < (shift.first : Int) + shift.offset := by
  have hall : shiftTable.all (fun s => decide (0x5F < (s.first : Int) + s.offset)) = true := by
    decide +kernel
  simpa using List.all_eq_true.1 hall shift h

theorem occursIn_iff {needle cs : List Char} : occursIn needle cs = true ↔ needle <:+: cs := by
  induction cs with
  | nil => simp [occursIn]
  | cons c cs ih =>
    rw [occursIn, Bool.or_eq_true, List.isPrefixOf_iff_prefix, ih, List.infix_cons_iff]

end Text

namespace Sensitive

/-- The characters in lower case, one by one. -/
def lowered (cs : List Char) : List Char := cs.flatMap Text.lowerChar

theorem flatten_map_lowered (pieces : List (List Char)) :
    (pieces.map lowered).flatten = lowered pieces.flatten := by
  unfold lowered
  rw [List.flatMap_def, List.map_flatten, List.flatten_flatten, List.map_map]
  rfl

theorem isEmpty_lowered (cs : List Char) : (lowered cs).isEmpty = cs.isEmpty := by
  cases cs with
  | nil => rfl
  | cons c cs => simp [lowered, Text.lowerChar_ne_nil c]

theorem isSeparator_iff {c : Char} : isSeparator c = true ↔ c.toNat = 0x5F ∨ c.toNat = 0x2D := by
  have hcode : ∀ d : Char, c = d ↔ c.toNat = d.toNat := fun d =>
    Char.ext_iff.trans UInt32.toNat_inj.symm
  unfold isSeparator
  rw [Bool.or_eq_true, beq_iff_eq, beq_iff_eq, hcode, hcode]
  rfl

theorem isSeparator_toLower (c : Char) : isSeparator c.toLower = isSeparator c := by
  rcases ClassName.toLower_cases c with heq | ⟨hlow, hhigh, hnat⟩
  · rw [heq]
  · rw [Bool.eq_iff_iff, isSeparator_iff, isSeparator_iff]
    omega

theorem isSeparator_ofNat {n : Nat} (h : 0x5F < n) : isSeparator (Char.ofNat n) = false := by
  -- A number that is no code point gives the null character.
  have hcode : (Char.ofNat n).toNat = n ∨ (Char.ofNat n).toNat = 0 := by
    unfold Char.ofNat
    by_cases hvalid : n.isValidChar
    · rw [dif_pos hvalid]
      exact .inl rfl
    · rw [dif_neg hvalid]
      exact .inr rfl
  rw [Bool.eq_false_iff, Ne, isSeparator_iff]
  omega

theorem lowerChar_of_isSeparator {c : Char} (h : isSeparator c = true) : Text.lowerChar c = [c] := by
  unfold isSeparator at h
  rw [Bool.or_eq_true, beq_iff_eq, beq_iff_eq] at h
  rcases h with rfl | rfl <;> rfl

/-- No character but a separator has one in its lower case. -/
theorem isSeparator_of_mem_lowerChar {c d : Char} (hc : isSeparator c = false)
    (hd : d ∈ Text.lowerChar c) : isSeparator d = false := by
  unfold Text.lowerChar at hd
  split at hd
  · rw [List.mem_singleton.1 hd, isSeparator_toLower, hc]
  · split at hd
    · rcases List.mem_pair.1 hd with rfl | rfl <;> decide
    · split at hd
      · next shift hshift =>
        have hlt := Text.lt_of_mem_shiftTable (List.mem_of_find?_eq_some hshift)
        have hhas := List.find?_some hshift
        simp only [Text.Stretch.has, Bool.and_eq_true, decide_eq_true_eq] at hhas
        rw [List.mem_singleton.1 hd]
        exact isSeparator_ofNat (by omega)
      · rw [List.mem_singleton.1 hd, hc]

/-- Separators may be dropped before or after the change to lower case. -/
theorem filter_lowered (cs : List Char) :
    (lowered cs).filter (!isSeparator ·) = lowered (cs.filter (!isSeparator ·)) := by
  induction cs with
  | nil => rfl
  | cons c cs ih =>
    have hcons : lowered (c :: cs) = Text.lowerChar c ++ lowered cs := List.flatMap_cons
    rw [hcons, List.filter_append, ih]
    cases hc : isSeparator c with
    | true =>
      have hdrop : [c].filter (!isSeparator ·) = [] := by simp [hc]
      rw [lowerChar_of_isSeparator hc, hdrop, List.filter_cons_of_neg (by simp [hc]), List.nil_append]
    | false =>
      have hkeep : (Text.lowerChar c).filter (!isSeparator ·) = Text.lowerChar c := by
        refine List.filter_eq_self.2 fun d hd => ?_
        rw [isSeparator_of_mem_lowerChar hc hd, Bool.not_false]
      rw [hkeep, List.filter_cons_of_pos (by simp [hc])]
      exact List.flatMap_cons.symm

/-! ## Pieces -/

/-- Whether the second of two neighbours is a capital letter that starts a word. -/
def isHump (a b : Char) : Bool := endsHump a && Text.isUpper b

/-- Whether two neighbours stay together when a name is cut. -/
def together (a b : Char) : Bool := !isSeparator a && !isSeparator b && !isHump a b

/-- The pieces of a name as they are written. Separators belong to none of them. -/
def pieces (name : List Char) : List (List Char) :=
  (name.splitBy together).filter fun piece => !piece.any isSeparator

/-- A stretch of a name in which there is nothing to cut. -/
structure IsWhole (piece : List Char) : Prop where
  no_separator : ∀ c ∈ piece, isSeparator c = false
  no_hump : piece.IsChain fun a b => isHump a b = false

/-- A stretch between two cuts of a name, with what stands before and behind it. -/
structure IsPiece (before piece behind : List Char) : Prop extends IsWhole piece where
  ne_nil : piece ≠ []
  starts : ∀ a ∈ before.getLast?, ∀ b ∈ piece.head?, isSeparator a = true ∨ isHump a b = true
  ends : ∀ a ∈ piece.getLast?, ∀ b ∈ behind.head?, isSeparator b = true ∨ isHump a b = true

variable {name piece xs ys : List Char}

theorem together_eq_false_iff {a b : Char} : together a b = false ↔
    isSeparator a = true ∨ isSeparator b = true ∨ isHump a b = true := by
  unfold together
  simp only [Bool.and_eq_false_iff, Bool.not_eq_false', or_assoc]

theorem IsWhole.isChain (h : IsWhole piece) : piece.IsChain fun a b => together a b = true := by
  refine h.no_hump.imp_of_mem_imp fun a b ha hb hhump => ?_
  simp [together, h.no_separator a ha, h.no_separator b hb, hhump]

theorem isWhole_of_isChain (h : piece.IsChain fun a b => together a b = true)
    (hsep : piece.any isSeparator = false) : IsWhole piece := by
  refine ⟨fun c hc => Bool.eq_false_iff.2 (List.any_eq_false.1 hsep c hc), h.imp fun a b hab => ?_⟩
  unfold together at hab
  simp only [Bool.and_eq_true, Bool.not_eq_true'] at hab
  exact hab.2

/-- A separator stands alone among what a name is cut into. -/
theorem eq_singleton_of_isChain (h : piece.IsChain fun a b => together a b = true)
    (hsep : piece.any isSeparator = true) : ∃ c, piece = [c] ∧ isSeparator c = true := by
  induction piece with
  | nil => cases hsep
  | cons c piece ih =>
    cases piece with
    | nil => exact ⟨c, rfl, by simpa using hsep⟩
    | cons d piece =>
      obtain ⟨htogether, hrest⟩ := List.isChain_cons_cons.1 h
      simp only [together, Bool.and_eq_true, Bool.not_eq_true'] at htogether
      obtain ⟨⟨hc, hd⟩, -⟩ := htogether
      rw [List.any_cons, hc, Bool.false_or] at hsep
      obtain ⟨e, heq, he⟩ := ih hrest hsep
      obtain ⟨rfl, -⟩ := List.cons.inj heq
      exact absurd he (Bool.eq_false_iff.1 hd)

/-- A name falls apart wherever it is cut. -/
theorem pieces_append (h : ∀ a ∈ xs.getLast?, ∀ b ∈ ys.head?, together a b = false) :
    pieces (xs ++ ys) = pieces xs ++ pieces ys := by
  unfold pieces
  rw [List.splitBy_append h, List.filter_append]

theorem pieces_singleton {c : Char} (hc : isSeparator c = true) : pieces [c] = [] := by
  simp [pieces, List.splitBy_of_isChain, hc]

theorem pieces_of_isWhole (hne : piece ≠ []) (h : IsWhole piece) : pieces piece = [piece] := by
  have hnone : piece.any isSeparator = false := List.any_eq_false.2 (by simpa using h.no_separator)
  unfold pieces
  rw [List.splitBy_of_isChain hne h.isChain, List.filter_cons_of_pos (by simp [hnone]), List.filter_nil]

theorem pieces_separator {c : Char} (hc : isSeparator c = true) (xs ys : List Char) :
    pieces (xs ++ c :: ys) = pieces xs ++ pieces ys := by
  have hbefore : pieces (xs ++ c :: ys) = pieces xs ++ pieces (c :: ys) := by
    refine pieces_append fun a _ b hb => together_eq_false_iff.2 (.inr (.inl ?_))
    rwa [← Option.some.inj hb]
  have hbehind : pieces ([c] ++ ys) = pieces [c] ++ pieces ys := by
    refine pieces_append fun a ha b _ => together_eq_false_iff.2 (.inl ?_)
    rwa [← Option.some.inj ha]
  rw [hbefore, ← List.singleton_append, hbehind, pieces_singleton hc, List.nil_append]

theorem together_of_splitBy {gs hs : List (List Char)} (h : name.splitBy together = gs ++ hs) :
    ∀ a ∈ gs.flatten.getLast?, ∀ b ∈ hs.flatten.head?, together a b = false := by
  have hchain := List.isChain_getLast_head_splitBy together name
  rw [h] at hchain
  intro a ha b hb
  rcases List.eq_nil_or_concat gs with rfl | ⟨gs, g, rfl⟩
  · cases ha
  cases hs with
  | nil => cases hb
  | cons g' hs =>
    obtain ⟨hg, hg', hcut⟩ := (List.isChain_append.1 hchain).2.2 g (by simp) g' rfl
    rw [List.concat_eq_append, List.flatten_concat, List.getLast?_append_of_ne_nil _ hg,
      List.getLast?_eq_some_getLast hg] at ha
    rw [List.flatten_cons, List.head?_append_of_ne_nil _ hg', List.head?_eq_some_head hg'] at hb
    rwa [← Option.some.inj ha, ← Option.some.inj hb]

/-- The pieces of a name are its stretches between two cuts. -/
theorem mem_pieces_iff : piece ∈ pieces name ↔
    ∃ before behind, name = before ++ piece ++ behind ∧ IsPiece before piece behind := by
  constructor
  · intro h
    obtain ⟨hmem, hsep⟩ := List.mem_filter.1 h
    obtain ⟨gs, hs, hsplit⟩ := List.append_of_mem hmem
    have hne := List.ne_nil_of_mem_splitBy hmem
    have hwhole := isWhole_of_isChain (List.isChain_of_mem_splitBy hmem) (by simpa using hsep)
    refine ⟨gs.flatten, hs.flatten, ?_, hwhole, hne, ?_, ?_⟩
    · rw [← List.flatten_splitBy together name, hsplit]
      simp
    · intro a ha b hb
      have hcut := together_of_splitBy hsplit a ha b (by
        rwa [List.flatten_cons, List.head?_append_of_ne_nil _ hne])
      rw [together_eq_false_iff, hwhole.no_separator b (List.mem_of_mem_head? hb)] at hcut
      simpa using hcut
    · intro a ha b hb
      have hsplit' : name.splitBy together = (gs ++ [piece]) ++ hs := by simpa using hsplit
      have hcut := together_of_splitBy hsplit' a (by
        rwa [List.flatten_concat, List.getLast?_append_of_ne_nil _ hne]) b hb
      rw [together_eq_false_iff, hwhole.no_separator a (List.mem_of_mem_getLast? ha)] at hcut
      simpa using hcut
  · rintro ⟨before, behind, rfl, h⟩
    have hstart : ∀ a ∈ before.getLast?, ∀ b ∈ piece.head?, together a b = false := by
      intro a ha b hb
      exact together_eq_false_iff.2 ((h.starts a ha b hb).imp_right .inr)
    have hend : ∀ a ∈ (before ++ piece).getLast?, ∀ b ∈ behind.head?, together a b = false := by
      intro a ha b hb
      rw [List.getLast?_append_of_ne_nil _ h.ne_nil] at ha
      exact together_eq_false_iff.2 (.inr (h.ends a ha b hb))
    rw [pieces_append hend, pieces_append hstart, pieces_of_isWhole h.ne_nil h.toIsWhole]
    simp

/-! ## Words -/

theorem consWord_lowered (h : IsWhole piece) (rest : List (List Char)) :
    consWord (lowered piece) rest = (pieces piece).map lowered ++ rest := by
  unfold consWord
  rw [isEmpty_lowered]
  cases piece with
  | nil => rfl
  | cons c piece =>
    rw [pieces_of_isWhole (List.cons_ne_nil _ _) h]
    rfl

/-- The pass over a name, with the letters of the present word before it. -/
theorem wordsFrom_eq (h : IsWhole piece) (cs : List Char) :
    wordsFrom (lowered piece) (piece.getLast?.any endsHump) cs =
      (pieces (piece ++ cs)).map lowered := by
  induction cs generalizing piece with
  | nil => rw [wordsFrom, consWord_lowered h, List.append_nil, List.append_nil]
  | cons c cs ih =>
    unfold wordsFrom
    split
    · next hsep =>
      have hnew := @ih [] ⟨by simp, .nil⟩
      rw [pieces_separator hsep, List.map_append, consWord_lowered h]
      exact congrArg _ hnew
    · next hsep =>
      have hsep : isSeparator c = false := Bool.eq_false_iff.2 hsep
      split
      · next hhump =>
        obtain ⟨hupper, hlast⟩ := Bool.and_eq_true_iff.1 hhump
        obtain ⟨a, ha, hends⟩ := (Option.any_eq_true _ _).1 hlast
        have hcut : pieces (piece ++ c :: cs) = pieces piece ++ pieces (c :: cs) := by
          refine pieces_append fun a' ha' b hb => together_eq_false_iff.2 (.inr (.inr ?_))
          rw [← Option.some.inj hb, ← Option.some.inj (ha.symm.trans ha'), isHump, hends, hupper]
          rfl
        have hnew := @ih [c] ⟨by simpa using hsep, .singleton c⟩
        rw [hcut, List.map_append, consWord_lowered h]
        simpa [lowered] using hnew
      · next hhump =>
        have hwhole : IsWhole (piece ++ [c]) := by
          refine ⟨?_, h.no_hump.append (.singleton c) fun a ha b hb => ?_⟩
          · simpa [or_imp, forall_and] using ⟨h.no_separator, hsep⟩
          · rw [← Option.some.inj hb, isHump]
            rw [Bool.and_comm, Bool.not_eq_true, Option.mem_def.1 ha] at hhump
            exact hhump
        simpa [lowered] using ih hwhole

/-- The words of a name are its pieces in lower case. -/
theorem words_eq (name : List Char) : words name = (pieces name).map lowered :=
  wordsFrom_eq ⟨by simp, .nil⟩ name

example : words "cardCVV2_no".toList = ["card", "cvv2", "no"].map String.toList := by decide +kernel

/-- Where every separator is a stretch of its own, dropping separators is dropping those stretches. -/
theorem flatten_filter_any {gs : List (List Char)} (h : ∀ g ∈ gs, g.any isSeparator = true →
    ∃ c, g = [c] ∧ isSeparator c = true) :
    (gs.filter fun g => !g.any isSeparator).flatten = gs.flatten.filter (!isSeparator ·) := by
  induction gs with
  | nil => rfl
  | cons g gs ih =>
    obtain ⟨hg, hgs⟩ := List.forall_mem_cons.1 h
    rw [List.flatten_cons, List.filter_append, ← ih hgs]
    cases hsep : g.any isSeparator with
    | true =>
      obtain ⟨c, rfl, hc⟩ := hg hsep
      simp [hc]
    | false =>
      have hkeep : g.filter (!isSeparator ·) = g := by simpa using hsep
      simp [hsep, hkeep]

/-- A name is put together from its pieces, but for the separators. -/
theorem flatten_pieces (name : List Char) : (pieces name).flatten = name.filter (!isSeparator ·) := by
  unfold pieces
  rw [flatten_filter_any fun _ hg => eq_singleton_of_isChain (List.isChain_of_mem_splitBy hg),
    List.flatten_splitBy]

/-- The characters of a name behind its sigils. -/
def bare (name : String) : List Char := name.toList.dropWhile (· == '$')

/-- A name speaks of a secret exactly if a term stands in it, whatever the separators, or a short term fills one
of its pieces. The words that the pass finds are the pieces in lower case, which are the stretches between two
cuts, in the order of the name. -/
theorem isSensitive_iff (name : String) :
    (isSensitive name = true ↔
        (∃ term ∈ terms, term.toList <:+: (lowered (bare name)).filter (!isSeparator ·)) ∨
          ∃ piece ∈ pieces (bare name), lowered piece = "ssn".toList ∨ lowered piece = "cvv".toList) ∧
      words (bare name) = (pieces (bare name)).map lowered ∧
      (∀ piece, piece ∈ pieces (bare name) ↔
        ∃ before behind, bare name = before ++ piece ++ behind ∧ IsPiece before piece behind) ∧
      (words (bare name)).flatten = (lowered (bare name)).filter (!isSeparator ·) := by
  have hflatten : (words (bare name)).flatten = (lowered (bare name)).filter (!isSeparator ·) := by
    rw [words_eq, filter_lowered, ← flatten_pieces, flatten_map_lowered]
  refine ⟨?_, words_eq _, fun _ => mem_pieces_iff, hflatten⟩
  have hstrip : (Text.stripStart '$' name).toList = bare name := String.toList_ofList
  unfold isSensitive
  dsimp only
  rw [hstrip, hflatten, words_eq, Bool.or_eq_true, List.any_eq_true, List.any_map, List.any_eq_true]
  refine or_congr ?_ ?_
  · simp only [Text.occursIn_iff]
  · refine exists_congr fun piece => and_congr_right fun _ => ?_
    simp only [Function.comp_apply, wholeWords, List.any_cons, List.any_nil, Bool.or_false,
      Bool.or_eq_true, beq_iff_eq]
    rw [eq_comm, @eq_comm _ "cvv".toList]

end Sensitive

end PhpAudit
