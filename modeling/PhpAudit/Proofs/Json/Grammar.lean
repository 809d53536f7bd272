import PhpAudit.Json.Pretty

/-!
# JSON texts

A document has one sequence of tokens (`tokens`). A text of the document spells them one after the other
(`IsText`): blanks may stand between tokens, a number goes on as long as digits follow, and inside of quotes
every character has several spellings. Numbers are whole, as they are in documents. The written form of
a document is one of its texts (`isText_pretty`).
-/

namespace PhpAudit.Json

/-! ## Tokens -/

/-- The parts of a JSON text that have a meaning of their own. -/
inductive Token
  | openList
  | closeList
  | openObject
  | closeObject
  | comma
  | colon
  | null
  | bool (b : Bool)
  | num (n : Int)
  | str (s : String)
  deriving DecidableEq, Repr

mutual

/-- The tokens of a document. -/
def tokens : Json → List Token
  | null => [.null]
  | bool b => [.bool b]
  | num n => [.num n]
  | str s => [.str s]
  | arr [] => [.openList, .closeList]
  | arr (item :: items) => .openList :: (tokens item ++ itemTokens items)
  | obj [] => [.openObject, .closeObject]
  | obj ((name, value) :: fields) =>
    .openObject :: .str name :: .colon :: (tokens value ++ fieldTokens fields)

/-- The tokens behind the first item of a list. -/
def itemTokens : List Json → List Token
  | [] => [.closeList]
  | item :: items => .comma :: (tokens item ++ itemTokens items)

/-- The tokens behind the first field of an object. -/
def fieldTokens : List (String × Json) → List Token
  | [] => [.closeObject]
  | (name, value) :: fields =>
    .comma :: .str name :: .colon :: (tokens value ++ fieldTokens fields)

end

/-! ## Spellings -/

/-- The characters that may stand between tokens. -/
def isSpace (c : Char) : Bool :=
  c == ' ' || c == '\t' || c == '\n' || c == '\r'

/-- The word for a token that is spelled in one way only. -/
def Token.word? : Token → Option (List Char)
  | openList => some ['[']
  | closeList => some [']']
  | openObject => some ['\x7b']
  | closeObject => some ['\x7d']
  | comma => some [',']
  | colon => some [':']
  | null => some ['n', 'u', 'l', 'l']
  | bool true => some ['t', 'r', 'u', 'e']
  | bool false => some ['f', 'a', 'l', 's', 'e']
  | num _ => none
  | str _ => none

/-- Decimal digits without needless zeros in front, and their value. -/
structure Digits (n : Nat) (w : List Char) : Prop where
  nonempty : w ≠ []
  isDigit : ∀ c ∈ w, c.isDigit = true
  leading : w.head? = some '0' → w = ['0']
  value : Nat.ofDigitChars 10 w 0 = n

/-- The spellings of a number. -/
inductive Numeral : Int → List Char → Prop
  | natural {n : Nat} {w : List Char} (hw : Digits n w) : Numeral n w
  | negative {n : Nat} {w : List Char} (hw : Digits n w) : Numeral (-n) ('-' :: w)

/-- The value of a hexadecimal digit. -/
def hexValue? (c : Char) : Option Nat :=
  if '0' ≤ c ∧ c ≤ '9' then some (c.toNat - 48)
  else if 'a' ≤ c ∧ c ≤ 'f' then some (c.toNat - 87)
  else if 'A' ≤ c ∧ c ≤ 'F' then some (c.toNat - 55)
  else none

/-- The unit of sixteen bits that four hexadecimal digits name. -/
def unit? (a b c d : Char) : Option Nat := do
  return ((← hexValue? a) * 16 + (← hexValue? b)) * 256 + ((← hexValue? c) * 16 + (← hexValue? d))

/-- Units that open a pair. -/
def isHigh (n : Nat) : Bool := 0xD800 ≤ n && n < 0xDC00

/-- Units that close a pair. -/
def isLow (n : Nat) : Bool := 0xDC00 ≤ n && n < 0xE000

/-- The character that a pair of units stands for. -/
def ofPair (high low : Nat) : Char :=
  Char.ofNat (0x10000 + (high - 0xD800) * 0x400 + (low - 0xDC00))

/-- The character that a letter behind a backslash stands for. -/
def shortEscape? (e : Char) : Option Char :=
  [('"', '"'), ('\\', '\\'), ('/', '/'), ('b', '\x08'), ('f', '\x0c'), ('n', '\n'), ('r', '\r'),
    ('t', '\t')].lookup e

/-- The spellings of a character inside of quotes. -/
inductive Letter : Char → List Char → Prop
  | plain {c : Char} (hc : 32 ≤ c.toNat) (hquote : c ≠ '"') (hslash : c ≠ '\\') : Letter c [c]
  | short {c e : Char} (he : shortEscape? e = some c) : Letter c ['\\', e]
  | code {a b c d : Char} {n : Nat} (hn : unit? a b c d = some n) (hhigh : isHigh n = false)
      (hlow : isLow n = false) : Letter (Char.ofNat n) ['\\', 'u', a, b, c, d]
  | pair {a b c d a' b' c' d' : Char} {n m : Nat} (hn : unit? a b c d = some n)
      (hm : unit? a' b' c' d' = some m) (hhigh : isHigh n = true) (hlow : isLow m = true) :
      Letter (ofPair n m) ['\\', 'u', a, b, c, d, '\\', 'u', a', b', c', d']

/-- The spellings of a text, without its quotes. -/
inductive Letters : List Char → List Char → Prop
  | nil : Letters [] []
  | cons {c : Char} {cs w ws : List Char} (hc : Letter c w) (hcs : Letters cs ws) :
      Letters (c :: cs) (w ++ ws)

/-- The spellings of a token. -/
inductive Spelling : Token → List Char → Prop
  | word {t : Token} {w : List Char} (hw : t.word? = some w) : Spelling t w
  | number {n : Int} {w : List Char} (hw : Numeral n w) : Spelling (.num n) w
  | text {s : String} {w : List Char} (hw : Letters s.toList w) :
      Spelling (.str s) ('"' :: (w ++ ['"']))

/-- No digit stands first. -/
def NoDigit (cs : List Char) : Prop := cs.head?.all (fun c => !c.isDigit) = true

/-- The token can be over where `cs` follows. -/
def Token.EndsAt : Token → List Char → Prop
  | num _, cs => NoDigit cs
  | _, _ => True

/-- The characters spell the tokens. -/
inductive Spells : List Token → List Char → Prop
  | nil : Spells [] []
  | space {ts : List Token} {c : Char} {cs : List Char} (hc : isSpace c = true) (h : Spells ts cs) :
      Spells ts (c :: cs)
  | token {t : Token} {ts : List Token} {w cs : List Char} (hw : Spelling t w) (hend : t.EndsAt cs)
      (h : Spells ts cs) : Spells (t :: ts) (w ++ cs)

/-- The text is one document, with nothing but blanks around it. -/
def IsText (j : Json) (text : String) : Prop := Spells (tokens j) text.toList

/-! ## The written form -/

theorem hexValue?_hexDigit : ∀ n < 16, hexValue? (hexDigit n) = some n := by decide

theorem letter_escapeChar (c : Char) : Letter c (escapeChar c) := by
  unfold escapeChar
  split
  · next h => subst h; exact .short rfl
  split
  · next h => subst h; exact .short rfl
  split
  · next h => subst h; exact .short rfl
  split
  · next h => subst h; exact .short rfl
  split
  · next h => subst h; exact .short rfl
  have hofNat : Char.ofNat c.toNat = c := Char.ofNat_toNat c
  split
  · next h =>
    rw [h] at hofNat
    exact hofNat ▸ .short rfl
  split
  · next h =>
    rw [h] at hofNat
    exact hofNat ▸ .short rfl
  split
  · next h =>
    have hunit : unit? '0' '0' (hexDigit (c.toNat / 16)) (hexDigit (c.toNat % 16)) =
        some (c.toNat / 16 * 16 + c.toNat % 16) := by
      have hzero : hexValue? '0' = some 0 := rfl
      simp [unit?, hzero, hexValue?_hexDigit _ (show c.toNat / 16 < 16 by omega),
        hexValue?_hexDigit _ (show c.toNat % 16 < 16 by omega)]
    rw [show c.toNat / 16 * 16 + c.toNat % 16 = c.toNat by omega] at hunit
    have hhigh : isHigh c.toNat = false := by simp [isHigh]; omega
    have hlow : isLow c.toNat = false := by simp [isLow]; omega
    have hletter := Letter.code hunit hhigh hlow
    rwa [hofNat] at hletter
  · next hquote hslash _ _ _ _ _ hc => exact .plain (Nat.le_of_not_lt hc) hquote hslash

theorem letters_escaped (cs : List Char) : Letters cs (cs.flatMap escapeChar) := by
  induction cs with
  | nil => exact .nil
  | cons c cs ih => exact .cons (letter_escapeChar c) ih

theorem Token.endsAt_of_word? {t : Token} {w : List Char} (h : t.word? = some w) (cs : List Char) :
    t.EndsAt cs := by
  cases t with
  | num n => cases h
  | _ => trivial

theorem Spells.word {t : Token} {ts : List Token} {w cs : List Char} (hw : t.word? = some w)
    (h : Spells ts cs) : Spells (t :: ts) (w ++ cs) :=
  .token (.word hw) (t.endsAt_of_word? hw cs) h

theorem Spells.quote {ts : List Token} {cs : List Char} (h : Spells ts cs) (s : String) :
    Spells (.str s :: ts) ((quote s).toList ++ cs) := by
  have htext := Spells.token (.text (letters_escaped s.toList)) (show (Token.str s).EndsAt cs from trivial) h
  simpa [Json.quote] using htext

/-- The digits of a number start with a zero only if there is no other digit. -/
theorem head?_toDigits (n : Nat) :
    (Nat.toDigits 10 n).head? = some '0' → Nat.toDigits 10 n = ['0'] := by
  induction n using Nat.strongRecOn with
  | _ n ih =>
    by_cases hn : n < 10
    · rw [Nat.toDigits_of_lt_base hn]
      intro h
      rw [Option.some.inj h]
    · rw [Nat.toDigits_of_base_le (by decide) (Nat.le_of_not_lt hn)]
      intro h
      rw [List.head?_append, Option.or_of_isSome (by simp [Nat.toDigits_ne_nil])] at h
      -- the leading digits would be those of zero
      have hzero := ih (n / 10) (by omega) h
      have hvalue := Nat.ofDigitChars_toDigits (b := 10) (n := n / 10) (by decide) (by decide)
      rw [hzero] at hvalue
      have : n / 10 = 0 := hvalue.symm
      omega

theorem digits_repr (n : Nat) : Digits n n.repr.toList := by
  rw [Nat.toList_repr]
  exact ⟨Nat.toDigits_ne_nil, fun c hc => Nat.isDigit_of_mem_toDigits (by decide) (by decide) hc,
    head?_toDigits n, Nat.ofDigitChars_toDigits (by decide) (by decide)⟩

theorem numeral_decimal (n : Int) : Numeral n (decimal n).toList := by
  cases n with
  | ofNat n => exact .natural (digits_repr n)
  | negSucc n =>
    have hspelled : (decimal (.negSucc n)).toList = '-' :: (n + 1).repr.toList := by simp [decimal]
    rw [hspelled]
    exact Numeral.negative (digits_repr (n + 1))

theorem Spells.newline {ts : List Token} {cs : List Char} (h : Spells ts cs) (level : Nat) :
    Spells ts ((newline level).toList ++ cs) := by
  have hindent : ∀ k, Spells ts (List.replicate k ' ' ++ cs) := by
    intro k
    induction k with
    | zero => exact h
    | succ k ih => exact .space (by decide) ih
  simpa [Json.newline] using Spells.space (c := '\n') (by decide) (hindent (2 * level))

theorem noDigit_newline (level : Nat) (cs : List Char) : NoDigit ((newline level).toList ++ cs) := by
  simp [NoDigit, Json.newline]

mutual

theorem spells_render (level : Nat) : ∀ (j : Json) {ts : List Token} {cs : List Char},
    NoDigit cs → Spells ts cs → Spells (tokens j ++ ts) ((render level j).toList ++ cs)
  | .null, _, _, _, h => by simpa [tokens, render] using Spells.word (t := .null) rfl h
  | .bool true, _, _, _, h => by simpa [tokens, render] using Spells.word (t := .bool true) rfl h
  | .bool false, _, _, _, h => by simpa [tokens, render] using Spells.word (t := .bool false) rfl h
  | .num n, _, _, hend, h => by
    simpa [tokens, render] using Spells.token (.number (numeral_decimal n)) hend h
  | .str s, _, _, _, h => by simpa [tokens, render] using h.quote s
  | .arr [], _, _, _, h => by
    have hclose := Spells.word (t := .closeList) rfl h
    simpa [tokens, render] using Spells.word (t := .openList) rfl hclose
  | .arr (item :: items), ts, cs, _, h => by
    have hitems := spells_renderItems level (level + 1) items h
    have hitem := spells_render (level + 1) item hitems.1 hitems.2
    simpa [tokens, render] using Spells.word (t := .openList) rfl (hitem.newline (level + 1))
  | .obj [], _, _, _, h => by
    have hclose := Spells.word (t := .closeObject) rfl h
    simpa [tokens, render] using Spells.word (t := .openObject) rfl hclose
  | .obj ((name, value) :: fields), ts, cs, _, h => by
    have hfields := spells_renderFields level (level + 1) fields h
    have hvalue := spells_render (level + 1) value hfields.1 hfields.2
    have hcolon := Spells.word (t := .colon) rfl (Spells.space (c := ' ') (by decide) hvalue)
    simpa [tokens, render] using
      Spells.word (t := .openObject) rfl ((hcolon.quote name).newline (level + 1))

theorem spells_renderItems (outer level : Nat) : ∀ (items : List Json) {ts : List Token}
    {cs : List Char}, Spells ts cs →
      NoDigit ((renderItems level items).toList ++ ((newline outer).toList ++ ']' :: cs)) ∧
      Spells (itemTokens items ++ ts)
        ((renderItems level items).toList ++ ((newline outer).toList ++ ']' :: cs))
  | [], ts, cs, h => by
    have hclose := (Spells.word (t := .closeList) rfl h).newline outer
    exact ⟨noDigit_newline outer _, by simpa [itemTokens, renderItems] using hclose⟩
  | item :: items, ts, cs, h => by
    have hitems := spells_renderItems outer level items h
    have hitem := spells_render level item hitems.1 hitems.2
    have hcomma := Spells.word (t := .comma) rfl (hitem.newline level)
    exact ⟨by simp [NoDigit, renderItems], by simpa [itemTokens, renderItems] using hcomma⟩

theorem spells_renderFields (outer level : Nat) : ∀ (fields : List (String × Json))
    {ts : List Token} {cs : List Char}, Spells ts cs →
      NoDigit ((renderFields level fields).toList ++ ((newline outer).toList ++ '\x7d' :: cs)) ∧
      Spells (fieldTokens fields ++ ts)
        ((renderFields level fields).toList ++ ((newline outer).toList ++ '\x7d' :: cs))
  | [], ts, cs, h => by
    have hclose := (Spells.word (t := .closeObject) rfl h).newline outer
    exact ⟨noDigit_newline outer _, by simpa [fieldTokens, renderFields] using hclose⟩
  | (name, value) :: fields, ts, cs, h => by
    have hfields := spells_renderFields outer level fields h
    have hvalue := spells_render level value hfields.1 hfields.2
    have hcolon := Spells.word (t := .colon) rfl (Spells.space (c := ' ') (by decide) hvalue)
    have hcomma := Spells.word (t := .comma) rfl ((hcolon.quote name).newline level)
    exact ⟨by simp [NoDigit, renderFields], by simpa [fieldTokens, renderFields] using hcomma⟩

end

/-- The written form of a document is a text of it, also with a line feed at the end. -/
theorem isText_pretty (j : Json) : IsText j (j.pretty ++ "\n") := by
  have hend : Spells [] ['\n'] := .space (by decide) .nil
  simpa [IsText, pretty] using spells_render 0 j (show NoDigit ['\n'] from rfl) hend

end PhpAudit.Json
