import PhpAudit.Text.Blank

/-!
# Glob patterns

A pattern is read from left to right: two stars stand for any text without a line feed, one star for
any text without a slash, a question mark for any one character but a line feed, and every other
character for itself. Character classes are not supported. A pattern is shown as the regular expression it
amounts to, and an engine compiles it, which may refuse one that would become too large.
-/

namespace PhpAudit

/-- One item of a pattern. -/
inductive GlobPart
  /-- Any text without a line feed. -/
  | anyPath
  /-- Any text without a slash. -/
  | anySegment
  /-- Any character but a line feed. -/
  | anyChar
  /-- The character itself. -/
  | literal (c : Char)
  deriving DecidableEq, Repr

/-- A pattern for paths. -/
abbrev Glob := List GlobPart

/-- Why a pattern is refused. -/
inductive GlobError
  /-- It has a bracket, as for a character class. -/
  | characterClass
  /-- It is not compiled, for the reason given. -/
  | notCompiled (reason : String)
  deriving DecidableEq, Repr

/-- What is said about a pattern that is refused. -/
def GlobError.message : GlobError → String
  | characterClass => "regex parse error:\n    [\n    ^\nerror: unclosed character class"
  | notCompiled reason => reason

namespace Glob

/-- What compiles patterns: it takes a pattern, or gives the reason why it does not. -/
abbrev Engine := Glob → Option String

/-- An engine that compiles patterns of any size. -/
def Engine.unlimited : Engine := fun _ => none

/-- A pattern, once it is compiled. -/
def Engine.compile (engine : Engine) (p : Glob) : Except GlobError Glob :=
  match engine p with
  | none => .ok p
  | some reason => .error (.notCompiled reason)

/-! ## Reading -/

/-- The items of a pattern. Stars are taken two at a time. -/
def partsOf : List Char → Glob
  | [] => []
  | '*' :: '*' :: cs => .anyPath :: partsOf cs
  | '*' :: cs => .anySegment :: partsOf cs
  | '?' :: cs => .anyChar :: partsOf cs
  | c :: cs => .literal c :: partsOf cs

/-- Reads a pattern. -/
def read (pattern : String) : Except GlobError Glob :=
  if pattern.toList.any (fun c => c == '[' || c == ']') then .error .characterClass
  else .ok (partsOf pattern.toList)

/-- Reads a pattern and has it compiled. -/
def parse (engine : Engine) (pattern : String) : Except GlobError Glob := do
  engine.compile (← read pattern)

/-- Reads a pattern for paths to leave out. One that ends in a slash covers all that lies below. -/
def parseExclude (engine : Engine) (pattern : String) : Except GlobError Glob :=
  parse engine (if Text.endsWith pattern '/' then pattern ++ "**" else pattern)

/-! ## Matching -/

/-- Whether an item stands for texts of any length that hold a character. -/
def repeats : GlobPart → Char → Bool
  | .anyPath, c => c != '\n'
  | .anySegment, c => c != '/'
  | _, _ => false

/-- Whether an item stands for the empty text. -/
def isOptional : GlobPart → Bool
  | .anyPath | .anySegment => true
  | _ => false

/-- Whether an item stands for a text of one character. -/
def accepts : GlobPart → Char → Bool
  | .literal d, c => c == d
  | .anyChar, c => c != '\n'
  | _, _ => false

/-! A text is read from its end where repetitions leave it open what an item stands for. What is known of
the text read so far is a row: for every tail of the pattern, the whole pattern first, whether that tail
stands for it. -/

/-- What a row says of the pattern that it starts with. -/
def firstOf (row : List Bool) : Bool := row.headD false

/-- The row of the empty text. -/
def emptyRow : Glob → List Bool
  | [] => [true]
  | part :: rest =>
    let row := emptyRow rest
    (isOptional part && firstOf row) :: row

/-- The row of a text, given the character that stands in front and the row of what follows it. A
repetition takes the character and stays, or leaves it to the items behind; any other item takes it and
passes on. -/
def extendRow (c : Char) : Glob → List Bool → List Bool
  | part :: rest, stays :: row =>
    let behind := extendRow c rest row
    let here :=
      if isOptional part then (repeats part c && stays) || firstOf behind
      else accepts part c && firstOf row
    here :: behind
  | _, _ => [false]

/-- The row of a text. -/
def rowOf (p : Glob) (cs : List Char) : List Bool :=
  cs.foldr (fun c row => extendRow c p row) (emptyRow p)

/-- Whether a pattern stands for a whole list of characters. The items in front of the first repetition
take one character each. -/
def matchesChars : Glob → List Char → Bool
  | [], cs => cs.isEmpty
  | part :: rest, cs =>
    if isOptional part then firstOf (rowOf (part :: rest) cs)
    else
      match cs with
      | [] => false
      | c :: cs => accepts part c && matchesChars rest cs

/-- Whether a pattern stands for a whole text. -/
def matchesText (p : Glob) (s : String) : Bool :=
  matchesChars p s.toList

/-! ## Regular expressions -/

/-- The characters that need a backslash to stand for themselves. -/
def metaChars : List Char := ['.', '(', ')', '+', '|', '^', '$', '\x7b', '\x7d', '\\']

/-- An item as a regular expression. -/
def partRegex : GlobPart → String
  | .anyPath => ".*"
  | .anySegment => "[^/]*"
  | .anyChar => "."
  | .literal c => if metaChars.contains c then String.ofList ['\\', c] else String.ofList [c]

/-- A pattern as a regular expression for a whole text. -/
def regex (p : Glob) : String :=
  "^" ++ String.join (p.map partRegex) ++ "$"

end Glob

end PhpAudit
