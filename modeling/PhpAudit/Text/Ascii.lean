/-!
# Letters up to ASCII case

Identifiers of classes, methods and functions are compared without regard to the case of the letters
`A` to `Z`; every other character stands for itself.
-/

namespace PhpAudit.Text

/-- The text with the letters `A` to `Z` in lower case. -/
def asciiLower (s : String) : String :=
  String.ofList (s.toList.map Char.toLower)

/-- Equality up to the case of ASCII letters. -/
def sameAscii (a b : String) : Bool :=
  asciiLower a == asciiLower b

/-- Whether a text equals one of `names` up to the case of ASCII letters. -/
def isOneOf (names : List String) (s : String) : Bool :=
  names.any (sameAscii · s)

/-- Drops every entry that equals an earlier one up to ASCII case. -/
def dedupAscii (names : List String) : List String :=
  names.foldl (fun kept name => if isOneOf kept name then kept else kept ++ [name]) []

end PhpAudit.Text
