import PhpAudit.Text.CaseTable

/-!
# Letter case beyond ASCII

Upper and lower case as Unicode defines them, and the lower-case form of a text. The lower-case form
is taken character by character, with two exceptions of the standard: the dotted capital `I` becomes
two characters, and a capital sigma at the end of a word becomes a final sigma.
-/

namespace PhpAudit.Text

/-- Whether a character has the Unicode property `Uppercase`. -/
def isUpper (c : Char) : Bool :=
  if c.toNat < 0x80 then c.isUpper else upperTable.any (·.has c.toNat)

/-- Whether a character has the Unicode property `Lowercase`. -/
def isLower (c : Char) : Bool :=
  if c.toNat < 0x80 then c.isLower else lowerTable.any (·.has c.toNat)

/-- Whether a character is a letter with case. -/
def isCased (c : Char) : Bool :=
  isUpper c || isLower c || titleTable.any (·.has c.toNat)

/-- Whether a character is skipped when the neighbours of a letter are looked at. -/
def isCaseIgnorable (c : Char) : Bool :=
  ignorableTable.any (·.has c.toNat)

/-- The lower-case form of one character, out of context. -/
def lowerChar (c : Char) : List Char :=
  if c.toNat < 0x80 then [c.toLower]
  else if c = 'İ' then ['i', Char.ofNat 0x307]
  else
    match shiftTable.find? (·.has c.toNat) with
    | some shift => [Char.ofNat (c.toNat + shift.offset).toNat]
    | none => [c]

/-- Whether the first character that is not skipped is a letter with case. -/
def nextIsCased (cs : List Char) : Bool :=
  match cs.dropWhile isCaseIgnorable with
  | [] => false
  | c :: _ => isCased c

/-- Lower-cases a text from left to right; `before` holds what has been read, nearest first. -/
def lowerFrom (before : List Char) : List Char → List Char
  | [] => []
  | c :: cs =>
    let here :=
      if c = 'Σ' then
        if nextIsCased before && !nextIsCased cs then ['ς'] else ['σ']
      else lowerChar c
    here ++ lowerFrom (c :: before) cs

/-- The lower-case form of a text. -/
def lower (s : String) : String :=
  String.ofList (lowerFrom [] s.toList)

end PhpAudit.Text
