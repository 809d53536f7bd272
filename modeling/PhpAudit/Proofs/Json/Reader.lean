import PhpAudit.Proofs.Json.Grammar

/-!
# Reading JSON texts

The reader takes a text apart into tokens (`lex`) and builds the document from them (`value?`). It is a decision
procedure for the grammar: it answers with a document exactly on the texts of that document
(`read?_eq_some_iff`). So no text belongs to two documents (`IsText.unique`).
-/

namespace PhpAudit.Json

/-! ## Letters -/

/-- The character that the letters behind a backslash stand for, and what follows them. -/
def escape? : List Char → Option (Char × List Char)
  | 'u' :: a :: b :: c :: d :: cs =>
    match unit? a b c d with
    | none => none
    | some n =>
      if isHigh n then
        match cs with
        | '\\' :: 'u' :: a' :: b' :: c' :: d' :: rest =>
          match unit? a' b' c' d' with
          | none => none
          | some m => if isLow m then some (ofPair n m, rest) else none
        | _ => none
      else if isLow n then none
      else some (Char.ofNat n, cs)
  | e :: cs => (shortEscape? e).map fun c => (c, cs)
  | [] => none

/-- The first character of a quoted text. -/
def letter? : List Char → Option (Char × List Char)
  | '\\' :: cs => escape? cs
  | c :: cs => if c = '"' ∨ c.toNat < 32 then none else some (c, cs)
  | [] => none

theorem shortEscape?_u : shortEscape? 'u' = none := by decide

theorem letter?_append {c : Char} {w : List Char} (h : Letter c w) (cs : List Char) :
    letter? (w ++ cs) = some (c, cs) := by
  cases h with
  | plain hc hquote hslash => simp [letter?, hquote, Nat.not_lt.2 hc]
  | @short _ e he =>
    have hu : e ≠ 'u' := by
      rintro rfl
      cases shortEscape?_u ▸ he
    simp [letter?, escape?, hu, he]
  | code hn hhigh hlow => simp [letter?, escape?, hn, hhigh, hlow]
  | pair hn hm hhigh hlow => simp [letter?, escape?, hn, hm, hhigh, hlow]

theorem letter_of_escape? {c : Char} {cs rest : List Char} (h : escape? cs = some (c, rest)) :
    ∃ w, Letter c ('\\' :: w) ∧ cs = w ++ rest := by
  unfold escape? at h
  split at h
  · split at h
    · cases h
    next n hn =>
    split at h
    · next hhigh =>
      split at h
      · split at h
        · cases h
        next m hm =>
        split at h
        · next hlow =>
          obtain ⟨rfl, rfl⟩ := Prod.mk.inj (Option.some.inj h)
          exact ⟨_, .pair hn hm hhigh hlow, rfl⟩
        · cases h
      · cases h
    · next hhigh =>
      split at h
      · cases h
      · next hlow =>
        obtain ⟨rfl, rfl⟩ := Prod.mk.inj (Option.some.inj h)
        exact ⟨_, .code hn (Bool.eq_false_iff.2 hhigh) (Bool.eq_false_iff.2 hlow), rfl⟩
  · next e cs _ =>
    obtain ⟨c', hc, heq⟩ := Option.map_eq_some_iff.1 h
    cases heq
    exact ⟨[e], .short hc, rfl⟩
  · cases h

theorem letter_of_letter? {c : Char} {cs rest : List Char} (h : letter? cs = some (c, rest)) :
    ∃ w, Letter c w ∧ cs = w ++ rest := by
  unfold letter? at h
  split at h
  · obtain ⟨w, hw, rfl⟩ := letter_of_escape? h
    exact ⟨_, hw, rfl⟩
  · next hslash =>
    split at h
    · cases h
    · next hc =>
      cases h
      rw [not_or, Nat.not_lt] at hc
      exact ⟨[c], .plain hc.2 hc.1 (fun heq => hslash heq), rfl⟩
  · cases h

theorem Letter.ne_nil {c : Char} {w : List Char} (h : Letter c w) : w ≠ [] := by
  cases h <;> exact List.cons_ne_nil _ _

theorem length_of_letter? {c : Char} {cs rest : List Char} (h : letter? cs = some (c, rest)) :
    rest.length < cs.length := by
  obtain ⟨w, hw, rfl⟩ := letter_of_letter? h
  have := List.length_pos_iff.2 hw.ne_nil
  rw [List.length_append]
  omega

/-- The characters up to the closing quote, and what follows the quote. -/
def letters? (cs : List Char) : Option (List Char × List Char) :=
  match cs with
  | '"' :: rest => some ([], rest)
  | cs =>
    match _h : letter? cs with
    | none => none
    | some (c, rest) => (letters? rest).map fun (s, after) => (c :: s, after)
termination_by cs.length
decreasing_by exact length_of_letter? _h

theorem letters?_append {s w : List Char} (h : Letters s w) (cs : List Char) :
    letters? (w ++ '"' :: cs) = some (s, cs) := by
  induction h with
  | nil => simp [letters?]
  | @cons c s w ws hc hs ih =>
    have hletter := letter?_append hc (ws ++ '"' :: cs)
    rw [← List.append_assoc] at hletter
    rw [letters?.eq_def]
    split
    · next heq => rw [heq] at hletter; cases hletter
    · split
      · next heq => cases heq.symm.trans hletter
      · next heq =>
        cases heq.symm.trans hletter
        rw [ih]
        rfl

theorem letters_of_letters? {s cs rest : List Char} (h : letters? cs = some (s, rest)) :
    ∃ w, Letters s w ∧ cs = w ++ '"' :: rest := by
  fun_induction letters? cs generalizing s with
  | case1 rest' =>
    cases h
    exact ⟨[], .nil, rfl⟩
  | case2 => cases h
  | case3 cs _ c after hc ih =>
    obtain ⟨⟨s', _⟩, hs, heq⟩ := Option.map_eq_some_iff.1 h
    cases heq
    obtain ⟨w, hw, rfl⟩ := ih hs
    obtain ⟨w', hw', rfl⟩ := letter_of_letter? hc
    exact ⟨w' ++ w, .cons hw' hw, (List.append_assoc ..).symm⟩

/-! ## Tokens -/

/-- The digits at the front and their value. -/
def digits? (cs : List Char) : Option (Nat × List Char) :=
  let w := cs.takeWhile Char.isDigit
  if w = [] ∨ w.head? = some '0' ∧ w ≠ ['0'] then none
  else some (Nat.ofDigitChars 10 w 0, cs.dropWhile Char.isDigit)

theorem digits?_append {n : Nat} {w cs : List Char} (h : Digits n w) (hend : NoDigit cs) :
    digits? (w ++ cs) = some (n, cs) := by
  obtain ⟨htake, hdrop⟩ : cs.takeWhile Char.isDigit = [] ∧ cs.dropWhile Char.isDigit = cs := by
    cases cs with
    | nil => exact ⟨rfl, rfl⟩
    | cons c cs =>
      have hc : c.isDigit = false := by simpa [NoDigit] using hend
      have hneg := Bool.eq_false_iff.1 hc
      exact ⟨List.takeWhile_cons_of_neg hneg, List.dropWhile_cons_of_neg hneg⟩
  have hw : (w ++ cs).takeWhile Char.isDigit = w := by
    rw [List.takeWhile_append_of_pos h.isDigit, htake, List.append_nil]
  have hcs : (w ++ cs).dropWhile Char.isDigit = cs := by
    rw [List.dropWhile_append_of_pos h.isDigit, hdrop]
  have hleading : ¬(w = [] ∨ w.head? = some '0' ∧ w ≠ ['0']) :=
    not_or.2 ⟨h.nonempty, fun hzero => hzero.2 (h.leading hzero.1)⟩
  simp only [digits?, hw, hcs, if_neg hleading, h.value]

theorem digits_of_digits? {n : Nat} {cs rest : List Char} (h : digits? cs = some (n, rest)) :
    ∃ w, Digits n w ∧ NoDigit rest ∧ cs = w ++ rest := by
  simp only [digits?] at h
  split at h
  · cases h
  · next hw =>
    obtain ⟨hnonempty, hzero⟩ := not_or.1 hw
    cases h
    refine ⟨cs.takeWhile Char.isDigit, ⟨hnonempty, fun c hc => ?_, ?_, rfl⟩, ?_, ?_⟩
    · exact List.all_eq_true.1 List.all_takeWhile c hc
    · exact fun hhead => Decidable.not_not.1 fun hne => hzero ⟨hhead, hne⟩
    · have hhead := List.head?_dropWhile_not Char.isDigit cs
      unfold NoDigit
      split at hhead
      · next heq => simp [heq, hhead]
      · next heq => simp [heq]
    · exact (List.takeWhile_append_dropWhile ..).symm

/-- The number at the front. -/
def number? : List Char → Option (Int × List Char)
  | '-' :: cs => (digits? cs).map fun (n, rest) => (-n, rest)
  | cs => (digits? cs).map fun (n, rest) => (n, rest)

theorem number?_append {n : Int} {w cs : List Char} (h : Numeral n w) (hend : NoDigit cs) :
    number? (w ++ cs) = some (n, cs) := by
  cases h with
  | natural hw =>
    have hdigits := digits?_append hw hend
    unfold number?
    split
    · next heq =>
      -- the sign is no digit
      rw [heq] at hdigits
      cases hdigits
    · rw [hdigits]
      rfl
  | negative hw => simp [number?, digits?_append hw hend]

theorem numeral_of_number? {n : Int} {cs rest : List Char} (h : number? cs = some (n, rest)) :
    ∃ w, Numeral n w ∧ NoDigit rest ∧ cs = w ++ rest := by
  unfold number? at h
  split at h
  · obtain ⟨⟨k, _⟩, hk, heq⟩ := Option.map_eq_some_iff.1 h
    cases heq
    obtain ⟨w, hw, hend, rfl⟩ := digits_of_digits? hk
    exact ⟨'-' :: w, .negative hw, hend, rfl⟩
  · obtain ⟨⟨k, _⟩, hk, heq⟩ := Option.map_eq_some_iff.1 h
    cases heq
    obtain ⟨w, hw, hend, rfl⟩ := digits_of_digits? hk
    exact ⟨w, .natural hw, hend, rfl⟩

/-- The token at the front, which is no number. -/
def sign? : List Char → Option (Token × List Char)
  | '[' :: cs => some (.openList, cs)
  | ']' :: cs => some (.closeList, cs)
  | '\x7b' :: cs => some (.openObject, cs)
  | '\x7d' :: cs => some (.closeObject, cs)
  | ',' :: cs => some (.comma, cs)
  | ':' :: cs => some (.colon, cs)
  | 'n' :: 'u' :: 'l' :: 'l' :: cs => some (.null, cs)
  | 't' :: 'r' :: 'u' :: 'e' :: cs => some (.bool true, cs)
  | 'f' :: 'a' :: 'l' :: 's' :: 'e' :: cs => some (.bool false, cs)
  | '"' :: cs => (letters? cs).map fun (s, rest) => (.str (String.ofList s), rest)
  | _ => none

/-- The token at the front. -/
def token? (cs : List Char) : Option (Token × List Char) :=
  match number? cs with
  | some (n, rest) => some (.num n, rest)
  | none => sign? cs

theorem token?_append {t : Token} {w cs : List Char} (h : Spelling t w) (hend : t.EndsAt cs) :
    token? (w ++ cs) = some (t, cs) := by
  cases h with
  | word hw =>
    unfold Token.word? at hw
    split at hw <;> cases hw <;> rfl
  | number hw => rw [token?, number?_append hw hend]
  | @text s w hw =>
    have hnumber : number? ('"' :: (w ++ ['"'] ++ cs)) = none := rfl
    have hletters := letters?_append hw cs
    rw [List.cons_append, token?, hnumber]
    simp [sign?, hletters]

theorem spelling_of_sign? {t : Token} {cs rest : List Char} (h : sign? cs = some (t, rest)) :
    ∃ w, Spelling t w ∧ t.EndsAt rest ∧ cs = w ++ rest := by
  unfold sign? at h
  split at h
  case h_10 =>
    obtain ⟨⟨s, _⟩, hs, heq⟩ := Option.map_eq_some_iff.1 h
    cases heq
    obtain ⟨w, hw, rfl⟩ := letters_of_letters? hs
    rw [← String.toList_ofList (l := s)] at hw
    exact ⟨_, .text hw, trivial, by simp⟩
  case h_11 => cases h
  all_goals
    cases h
    exact ⟨_, .word rfl, trivial, rfl⟩

theorem spelling_of_token? {t : Token} {cs rest : List Char} (h : token? cs = some (t, rest)) :
    ∃ w, Spelling t w ∧ t.EndsAt rest ∧ cs = w ++ rest := by
  unfold token? at h
  split at h
  · next hn =>
    cases h
    obtain ⟨w, hw, hend, rfl⟩ := numeral_of_number? hn
    exact ⟨w, .number hw, hend, rfl⟩
  · exact spelling_of_sign? h

/-- No spelling starts with a blank. -/
theorem Spelling.exists_cons {t : Token} {w : List Char} (h : Spelling t w) :
    ∃ c rest, w = c :: rest ∧ isSpace c = false := by
  cases h with
  | word hw =>
    unfold Token.word? at hw
    split at hw <;> cases hw <;> exact ⟨_, _, rfl, rfl⟩
  | number hw =>
    cases hw with
    | natural hw =>
      obtain ⟨c, rest, rfl⟩ := List.exists_cons_of_ne_nil hw.nonempty
      have hc := hw.isDigit c (List.mem_cons_self ..)
      refine ⟨c, rest, rfl, ?_⟩
      rw [Bool.eq_false_iff]
      intro hspace
      simp only [isSpace, Bool.or_eq_true, beq_iff_eq] at hspace
      rcases hspace with ((rfl | rfl) | rfl) | rfl <;> cases hc
    | negative hw => exact ⟨_, _, rfl, rfl⟩
  | text hw => exact ⟨_, _, rfl, rfl⟩

theorem length_of_token? {t : Token} {cs rest : List Char} (h : token? cs = some (t, rest)) :
    rest.length < cs.length := by
  obtain ⟨w, hw, -, rfl⟩ := spelling_of_token? h
  obtain ⟨c, w, rfl, -⟩ := hw.exists_cons
  rw [List.length_append, List.length_cons]
  omega

/-- The tokens of a text. -/
def lex (cs : List Char) : Option (List Token) :=
  match cs with
  | [] => some []
  | c :: cs =>
    if isSpace c then lex cs
    else
      match _h : token? (c :: cs) with
      | none => none
      | some (t, rest) => (lex rest).map (t :: ·)
termination_by cs.length
decreasing_by
  · simp
  · exact length_of_token? _h

theorem lex_of_spells {ts : List Token} {cs : List Char} (h : Spells ts cs) : lex cs = some ts := by
  induction h with
  | nil => simp [lex]
  | space hc h ih => rw [lex, if_pos hc, ih]
  | @token t ts w cs hw hend h ih =>
    have htoken := token?_append hw hend
    obtain ⟨c, w, rfl, hc⟩ := hw.exists_cons
    rw [List.cons_append] at htoken ⊢
    rw [lex, if_neg (Bool.eq_false_iff.1 hc)]
    split
    · next heq => cases heq.symm.trans htoken
    · next heq =>
      cases heq.symm.trans htoken
      rw [ih]
      rfl

theorem spells_of_lex {ts : List Token} {cs : List Char} (h : lex cs = some ts) : Spells ts cs := by
  fun_induction lex cs generalizing ts with
  | case1 =>
    cases h
    exact .nil
  | case2 c cs hc ih => exact .space hc (ih h)
  | case3 => cases h
  | case4 c cs _ t rest ht ih =>
    obtain ⟨ts, hts, rfl⟩ := Option.map_eq_some_iff.1 h
    obtain ⟨w, hw, hend, heq⟩ := spelling_of_token? ht
    exact heq ▸ .token hw hend (ih hts)

/-! ## Documents -/

mutual

/-- The document at the front. `fuel` bounds the depth of the recursion. -/
def value? : Nat → List Token → Option (Json × List Token)
  | _ + 1, .null :: ts => some (.null, ts)
  | _ + 1, .bool b :: ts => some (.bool b, ts)
  | _ + 1, .num n :: ts => some (.num n, ts)
  | _ + 1, .str s :: ts => some (.str s, ts)
  | _ + 1, .openList :: .closeList :: ts => some (.arr [], ts)
  | fuel + 1, .openList :: ts => do
    let (item, ts) ← value? fuel ts
    let (items, ts) ← items? fuel ts
    return (.arr (item :: items), ts)
  | _ + 1, .openObject :: .closeObject :: ts => some (.obj [], ts)
  | fuel + 1, .openObject :: .str name :: .colon :: ts => do
    let (value, ts) ← value? fuel ts
    let (fields, ts) ← fields? fuel ts
    return (.obj ((name, value) :: fields), ts)
  | _, _ => none

/-- The further items of a list, up to its closing bracket. -/
def items? : Nat → List Token → Option (List Json × List Token)
  | _ + 1, .closeList :: ts => some ([], ts)
  | fuel + 1, .comma :: ts => do
    let (item, ts) ← value? fuel ts
    let (items, ts) ← items? fuel ts
    return (item :: items, ts)
  | _, _ => none

/-- The further fields of an object, up to its closing bracket. -/
def fields? : Nat → List Token → Option (List (String × Json) × List Token)
  | _ + 1, .closeObject :: ts => some ([], ts)
  | fuel + 1, .comma :: .str name :: .colon :: ts => do
    let (value, ts) ← value? fuel ts
    let (fields, ts) ← fields? fuel ts
    return ((name, value) :: fields, ts)
  | _, _ => none

end

theorem exists_tokens (j : Json) : ∃ t ts, tokens j = t :: ts ∧ t ≠ .closeList := by
  unfold tokens
  split <;> exact ⟨_, _, rfl, Token.noConfusion⟩

/-- A bracket that opens a list is followed by an item, if not by the bracket that closes it. -/
theorem value?_openList (fuel : Nat) (item : Json) (ts : List Token) :
    value? (fuel + 1) (.openList :: (tokens item ++ ts)) = (do
      let (item, ts) ← value? fuel (tokens item ++ ts)
      let (items, ts) ← items? fuel ts
      return (.arr (item :: items), ts)) := by
  obtain ⟨t, ts', heq, ht⟩ := exists_tokens item
  rw [heq, List.cons_append, value?]
  exact fun _ h => ht (List.cons.inj h).1

mutual

theorem value?_tokens : ∀ (j : Json) (fuel : Nat) (ts : List Token), (tokens j).length ≤ fuel →
    value? fuel (tokens j ++ ts) = some (j, ts)
  | .null, fuel + 1, _, _ => rfl
  | .bool b, fuel + 1, _, _ => rfl
  | .num n, fuel + 1, _, _ => rfl
  | .str s, fuel + 1, _, _ => rfl
  | .arr [], fuel + 1, _, _ => rfl
  | .arr (item :: items), fuel + 1, ts, h => by
    simp only [tokens, List.length_cons, List.length_append] at h
    have hitem := value?_tokens item fuel (itemTokens items ++ ts) (by omega)
    have hitems := items?_itemTokens items fuel ts (by omega)
    rw [tokens, List.cons_append, List.append_assoc, value?_openList, hitem]
    simp [hitems]
  | .obj [], fuel + 1, _, _ => rfl
  | .obj ((name, value) :: fields), fuel + 1, ts, h => by
    simp only [tokens, List.length_cons, List.length_append] at h
    have hvalue := value?_tokens value fuel (fieldTokens fields ++ ts) (by omega)
    have hfields := fields?_fieldTokens fields fuel ts (by omega)
    simp [tokens, value?, hvalue, hfields]

theorem items?_itemTokens : ∀ (items : List Json) (fuel : Nat) (ts : List Token),
    (itemTokens items).length ≤ fuel → items? fuel (itemTokens items ++ ts) = some (items, ts)
  | [], fuel + 1, _, _ => rfl
  | item :: items, fuel + 1, ts, h => by
    simp only [itemTokens, List.length_cons, List.length_append] at h
    have hitem := value?_tokens item fuel (itemTokens items ++ ts) (by omega)
    have hitems := items?_itemTokens items fuel ts (by omega)
    simp [itemTokens, items?, hitem, hitems]

theorem fields?_fieldTokens : ∀ (fields : List (String × Json)) (fuel : Nat) (ts : List Token),
    (fieldTokens fields).length ≤ fuel → fields? fuel (fieldTokens fields ++ ts) = some (fields, ts)
  | [], fuel + 1, _, _ => rfl
  | (name, value) :: fields, fuel + 1, ts, h => by
    simp only [fieldTokens, List.length_cons, List.length_append] at h
    have hvalue := value?_tokens value fuel (fieldTokens fields ++ ts) (by omega)
    have hfields := fields?_fieldTokens fields fuel ts (by omega)
    simp [fieldTokens, fields?, hvalue, hfields]

end

mutual

theorem tokens_of_value? : ∀ (fuel : Nat) {ts rest : List Token} {j : Json},
    value? fuel ts = some (j, rest) → ts = tokens j ++ rest
  | 0, _, _, _, h => by simp [value?] at h
  | fuel + 1, _, rest, _, h => by
    unfold value? at h
    split at h
    case h_6 hfuel =>
      cases hfuel
      obtain ⟨⟨item, ts⟩, hitem, h⟩ := Option.bind_eq_some_iff.1 h
      obtain ⟨⟨items, _⟩, hitems, h⟩ := Option.bind_eq_some_iff.1 h
      cases h
      rw [tokens_of_value? fuel hitem, itemTokens_of_items? fuel hitems, tokens, List.cons_append,
        List.append_assoc]
    case h_8 hfuel =>
      cases hfuel
      obtain ⟨⟨value, ts⟩, hvalue, h⟩ := Option.bind_eq_some_iff.1 h
      obtain ⟨⟨fields, _⟩, hfields, h⟩ := Option.bind_eq_some_iff.1 h
      cases h
      rw [tokens_of_value? fuel hvalue, fieldTokens_of_fields? fuel hfields, tokens]
      simp only [List.cons_append, List.append_assoc]
    case h_9 => cases h
    all_goals
      cases h
      rfl

theorem itemTokens_of_items? : ∀ (fuel : Nat) {ts rest : List Token} {items : List Json},
    items? fuel ts = some (items, rest) → ts = itemTokens items ++ rest
  | 0, _, _, _, h => by simp [items?] at h
  | fuel + 1, _, rest, _, h => by
    unfold items? at h
    split at h
    case h_1 =>
      cases h
      rfl
    case h_2 hfuel =>
      cases hfuel
      obtain ⟨⟨item, ts⟩, hitem, h⟩ := Option.bind_eq_some_iff.1 h
      obtain ⟨⟨items, _⟩, hitems, h⟩ := Option.bind_eq_some_iff.1 h
      cases h
      rw [tokens_of_value? fuel hitem, itemTokens_of_items? fuel hitems, itemTokens, List.cons_append,
        List.append_assoc]
    case h_3 => cases h

theorem fieldTokens_of_fields? : ∀ (fuel : Nat) {ts rest : List Token}
    {fields : List (String × Json)},
    fields? fuel ts = some (fields, rest) → ts = fieldTokens fields ++ rest
  | 0, _, _, _, h => by simp [fields?] at h
  | fuel + 1, _, rest, _, h => by
    unfold fields? at h
    split at h
    case h_1 =>
      cases h
      rfl
    case h_2 hfuel =>
      cases hfuel
      obtain ⟨⟨value, ts⟩, hvalue, h⟩ := Option.bind_eq_some_iff.1 h
      obtain ⟨⟨fields, _⟩, hfields, h⟩ := Option.bind_eq_some_iff.1 h
      cases h
      rw [tokens_of_value? fuel hvalue, fieldTokens_of_fields? fuel hfields, fieldTokens]
      simp only [List.cons_append, List.append_assoc]
    case h_3 => cases h

end

/-- The document of a text. A document is no deeper than it has tokens. -/
def read? (text : String) : Option Json :=
  match lex text.toList with
  | none => none
  | some ts =>
    match value? ts.length ts with
    | some (j, []) => some j
    | _ => none

theorem read?_of_isText {j : Json} {text : String} (h : IsText j text) : read? text = some j := by
  have hvalue := value?_tokens j (tokens j).length [] (Nat.le_refl _)
  rw [List.append_nil] at hvalue
  simp only [read?, lex_of_spells h, hvalue]

theorem isText_of_read? {j : Json} {text : String} (h : read? text = some j) : IsText j text := by
  unfold read? at h
  split at h
  · cases h
  next ts hts =>
  split at h
  · next hvalue =>
    cases h
    have htokens := tokens_of_value? _ hvalue
    rw [List.append_nil] at htokens
    rw [IsText, ← htokens]
    exact spells_of_lex hts
  · cases h

/-- The reader finds a document exactly in the texts of that document. -/
theorem read?_eq_some_iff {j : Json} {text : String} : read? text = some j ↔ IsText j text :=
  ⟨isText_of_read?, read?_of_isText⟩

/-- No text belongs to two documents. -/
theorem IsText.unique {j j' : Json} {text : String} (h : IsText j text) (h' : IsText j' text) :
    j = j' :=
  Option.some.inj ((read?_of_isText h).symm.trans (read?_of_isText h'))

/-! ## Parts of a document -/

/-- The value of a field. There is none if the name is given twice: readers differ on which one counts. -/
def field? (j : Json) (name : String) : Option Json :=
  match j with
  | obj fields =>
    match fields.filter (fun field => field.1 == name) with
    | [(_, value)] => some value
    | _ => none
  | _ => none

/-- A text. -/
def asText? : Json → Option String
  | str s => some s
  | _ => none

/-- A natural number. -/
def asNat? : Json → Option Nat
  | num (.ofNat n) => some n
  | _ => none

/-- A list. -/
def asList? : Json → Option (List Json)
  | arr items => some items
  | _ => none

@[simp] theorem asText?_str (s : String) : (str s).asText? = some s := rfl

@[simp] theorem asNat?_nat (n : Nat) : (nat n).asNat? = some n := rfl

@[simp] theorem asList?_arr (items : List Json) : (arr items).asList? = some items := rfl

/-- Reads a list item by item. -/
def asListOf? {α : Type} (read : Json → Option α) (j : Json) : Option (List α) :=
  j.asList?.bind (List.mapM read)

/-- A list that was written item by item is read back if every item is. -/
theorem asListOf?_map {α : Type} {read : Json → Option α} {write : α → Json}
    (h : ∀ a, read (write a) = some a) (as : List α) : asListOf? read (arr (as.map write)) = some as := by
  rw [asListOf?, asList?_arr, Option.bind_some]
  induction as with
  | nil => rfl
  | cons a as ih => simp [h, ih]

end PhpAudit.Json
