import PhpAudit.Query.Parameter
import PhpAudit.Rule.Basic
import PhpAudit.Text.Case

/-!
# Parameters that hold secrets

A parameter whose name speaks of a secret should carry the attribute that keeps its value out of stack
traces. Names are taken apart into words at underscores, hyphens and the humps of camel case.
-/

namespace PhpAudit.Sensitive

/-- Terms that give a secret away wherever they stand in a name. -/
def terms : List String :=
  ["password", "passwd", "secret", "token", "credential", "apikey", "privatekey", "passphrase"]

/-- Terms that give a secret away as a whole word. -/
def wholeWords : List String := ["ssn", "cvv"]

/-- The attribute that marks a secret parameter. -/
def marker : String := "SensitiveParameter"

/-- Whether a character separates words. -/
def isSeparator (c : Char) : Bool := c == '_' || c == '-'

/-- Whether a capital letter after this character starts a new word. -/
def endsHump (c : Char) : Bool := Text.isLower c || c.isDigit

/-- A word in front of further words, unless it is empty. -/
def consWord (word : List Char) (rest : List (List Char)) : List (List Char) :=
  if word.isEmpty then rest else word :: rest

/-- The words of a name in lower case. `word` holds the letters of the present word, and `hump` says
whether a capital letter would end it. -/
def wordsFrom (word : List Char) (hump : Bool) : List Char → List (List Char)
  | [] => consWord word []
  | c :: cs =>
    if isSeparator c then consWord word (wordsFrom [] false cs)
    else if Text.isUpper c && hump then
      consWord word (wordsFrom (Text.lowerChar c) (endsHump c) cs)
    else wordsFrom (word ++ Text.lowerChar c) (endsHump c) cs

/-- The words of a name in lower case. -/
def words (name : List Char) : List (List Char) :=
  wordsFrom [] false name

/-- Whether a name speaks of a secret. -/
def isSensitive (name : String) : Bool :=
  let found := words (Text.stripStart '$' name).toList
  terms.any (fun t => Text.occursIn t.toList found.flatten) ||
    found.any (fun w => wholeWords.any (fun s => s.toList == w))

/-- Reports parameters that speak of a secret and lack the attribute. -/
def check (cx : Context) (n : Node) : Except Misuse (List Notice) := do
  let name ← cx.file.parameterName n
  if isSensitive name then
    if ← cx.file.hasAttribute marker n then return []
    return [⟨n, "parameter `$" ++ name ++
      "` looks sensitive but is not marked #[\\SensitiveParameter]"⟩]
  return []

/-- Secrets in parameters without the attribute that hides them. -/
def rule : Rule where
  id := "php.missing-sensitive-parameter"
  name := "Missing SensitiveParameter attribute"
  description := "parameters holding secrets should carry #[\\SensitiveParameter] " ++
    "so PHP redacts them from stack traces"
  severity := .low
  weaknesses := [⟨"CWE-532", "Insertion of Sensitive Information into Log File"⟩]
  kinds := [.parameter]
  check := check

end PhpAudit.Sensitive
