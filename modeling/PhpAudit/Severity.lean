import PhpAudit.Text.Case

/-!
# Severities and weakness classes
-/

namespace PhpAudit

/-- How serious a finding is, mildest first. -/
inductive Severity
  | info
  | low
  | medium
  | high
  | critical
  deriving DecidableEq, Repr, Inhabited

namespace Severity

/-- The place of a severity in the order from mild to serious. -/
def rank : Severity → Nat
  | info => 0
  | low => 1
  | medium => 2
  | high => 3
  | critical => 4

/-- Whether `s` is at least as serious as `threshold`. -/
def reaches (s threshold : Severity) : Bool :=
  threshold.rank ≤ s.rank

/-- The name of a severity in reports. -/
def label : Severity → String
  | info => "INFO"
  | low => "LOW"
  | medium => "MEDIUM"
  | high => "HIGH"
  | critical => "CRITICAL"

/-- Every severity, mildest first. -/
def all : List Severity := [info, low, medium, high, critical]

/-- The severities from mild to serious. -/
def sorted (severities : List Severity) : List Severity :=
  all.flatMap fun s => severities.filter (· = s)

/-- A text that names no severity. The word is kept in lower case. -/
structure Unknown where
  word : String
  deriving DecidableEq, Repr

/-- What is said about a text that names no severity. -/
def Unknown.message (e : Unknown) : String :=
  "unknown severity '" ++ e.word ++ "'"

/-- Reads a severity, in any letter case; `warning` is another word for `medium`. -/
def parse (s : String) : Except Unknown Severity :=
  match Text.lower s with
  | "info" => .ok info
  | "low" => .ok low
  | "medium" => .ok medium
  | "high" => .ok high
  | "critical" => .ok critical
  | "warning" => .ok medium
  | word => .error ⟨word⟩

end Severity

/-- A class of weaknesses in the Common Weakness Enumeration. -/
structure Weakness where
  id : String
  title : String
  deriving DecidableEq, Repr, Inhabited

namespace Weakness

/-- Drops `CWE-` from the front of an identifier as often as it stands there. -/
def numberOf : List Char → List Char
  | 'C' :: 'W' :: 'E' :: '-' :: rest => numberOf rest
  | cs => cs

/-- The page that defines the weakness class. -/
def url (w : Weakness) : String :=
  "https://cwe.mitre.org/data/definitions/" ++ String.ofList (numberOf w.id.toList) ++ ".html"

/-- Identifier and title on one line. -/
def describe (w : Weakness) : String :=
  w.id ++ ": " ++ w.title

end Weakness

end PhpAudit
