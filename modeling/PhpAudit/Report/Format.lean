/-!
# Report formats
-/

namespace PhpAudit

/-- How findings are reported. -/
inductive Format
  | text
  | json
  | sarif
  deriving DecidableEq, Repr, Inhabited

namespace Format

/-- The word for a format on the command line. -/
def word : Format → String
  | text => "text"
  | json => "json"
  | sarif => "sarif"

/-- Every format. -/
def all : List Format := [text, json, sarif]

/-- The format with the given word. -/
def ofWord? (s : String) : Option Format :=
  all.find? (fun f => f.word == s)

end Format

end PhpAudit
