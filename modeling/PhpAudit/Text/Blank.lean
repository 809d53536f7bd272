/-!
# Blank characters

The white space of Unicode, and the ways text is cut at it: trimming at either end and splitting
into the maximal stretches between blanks. Every function works on the list of characters, so that
what it keeps and what it drops is a statement about `List.takeWhile` and `List.dropWhile`.
-/

namespace PhpAudit.Text

/-- The characters with the Unicode property `White_Space`. -/
def isBlank (c : Char) : Bool :=
  let n := c.toNat
  (9 ≤ n && n ≤ 13) || n == 0x20 || n == 0x85 || n == 0xA0 || n == 0x1680 ||
    (0x2000 ≤ n && n ≤ 0x200A) || n == 0x2028 || n == 0x2029 || n == 0x202F ||
    n == 0x205F || n == 0x3000

/-- Drops the longest end of a list on which `p` holds. -/
def dropEndWhile (p : Char → Bool) (cs : List Char) : List Char :=
  (cs.reverse.dropWhile p).reverse

/-- The text without the blanks it starts with. -/
def trimStart (s : String) : String :=
  String.ofList (s.toList.dropWhile isBlank)

/-- The text without the blanks at its two ends. -/
def trim (s : String) : String :=
  String.ofList (dropEndWhile isBlank (s.toList.dropWhile isBlank))

/-- The text without the occurrences of `c` it starts with. -/
def stripStart (c : Char) (s : String) : String :=
  String.ofList (s.toList.dropWhile (· == c))

/-- The text without the occurrences of `c` it ends with. -/
def stripEnd (c : Char) (s : String) : String :=
  String.ofList (dropEndWhile (· == c) s.toList)

/-- Cuts a list at every character on which `p` holds; `n` cuts give `n + 1` pieces. -/
def cutAt (p : Char → Bool) : List Char → List (List Char)
  | [] => [[]]
  | c :: cs =>
    if p c then [] :: cutAt p cs
    else
      match cutAt p cs with
      | [] => [[c]]
      | piece :: pieces => (c :: piece) :: pieces

/-- The maximal blank-free stretches of a text, in order. -/
def words (s : String) : List String :=
  ((cutAt isBlank s.toList).filter (fun piece => !piece.isEmpty)).map String.ofList

/-- The parts of a text between the occurrences of `c`, the empty ones included. -/
def splitAt (c : Char) (s : String) : List String :=
  (cutAt (· == c) s.toList).map String.ofList

/-- The text before and after the first `c`, if there is one. -/
def splitFirst? (c : Char) (s : String) : Option (String × String) :=
  match s.toList.dropWhile (· != c) with
  | [] => none
  | _ :: rest => some (String.ofList (s.toList.takeWhile (· != c)), String.ofList rest)

/-- What follows the last `c`, the whole text if there is none. -/
def afterLast (c : Char) (s : String) : String :=
  String.ofList (s.toList.reverse.takeWhile (· != c)).reverse

/-- Whether `needle` occurs in a list of characters as a consecutive stretch. -/
def occursIn (needle : List Char) : List Char → Bool
  | [] => needle.isEmpty
  | c :: cs => needle.isPrefixOf (c :: cs) || occursIn needle cs

/-- Whether the text `s` contains `needle`. -/
def contains (s needle : String) : Bool :=
  occursIn needle.toList s.toList

/-- Whether the text `s` starts with `start`. -/
def startsWith (s start : String) : Bool :=
  start.toList.isPrefixOf s.toList

/-- Whether the text `s` ends with the character `c`. -/
def endsWith (s : String) (c : Char) : Bool :=
  s.toList.getLast? == some c

/-- Every `old` in the text becomes `new`. -/
def replace (old : Char) (new : String) (s : String) : String :=
  String.ofList (s.toList.flatMap fun c => if c = old then new.toList else [c])

end PhpAudit.Text
