import PhpAudit.Scan.Run

/-!
# Reports for people

The findings in plain text under a summary of the scan, with the severities in colour.
-/

namespace PhpAudit

/-- The figures shown above the findings. -/
structure ScanInfo where
  rulesLoaded : Nat
  filesAnalyzed : Nat
  classesIndexed : Nat
  durationMs : Nat
  failed : List FailedFile := []
  deriving Inhabited

namespace Report

/-- A line drawn with `n` strokes. -/
def stroke (n : Nat) : String := String.ofList (List.replicate n '─')

/-- The line below a heading. -/
def ruler : String := "    " ++ stroke 78 ++ "\n"

/-- A title in a box. -/
def box (title : String) : String :=
  let width := title.toList.length + 2
  "╭" ++ stroke width ++ "╮\n│ " ++ title ++ " │\n╰" ++ stroke width ++ "╯\n"

/-- The terminal code of the colour of a severity. -/
def colour : Severity → String
  | .info | .low => "\x1b[32m"
  | .medium => "\x1b[33m"
  | .high | .critical => "\x1b[31m"

/-- The name of a severity in its colour. -/
def coloured (s : Severity) : String :=
  colour s ++ s.label ++ "\x1b[0m"

/-- The list of failed files under its heading; nothing if there are none. -/
def failedSection (failed : List FailedFile) : String :=
  if failed.isEmpty then ""
  else
    "\n    FAILED FILES\n" ++ ruler ++
      String.join (failed.map fun f => "    " ++ f.path ++ ": " ++ f.reason ++ "\n")

/-- The figures of a scan. -/
def summary (info : ScanInfo) : String :=
  box "Analysis Status" ++ "\n" ++
    "    Scanned " ++ Nat.repr info.filesAnalyzed ++ " PHP files with " ++
    Nat.repr info.rulesLoaded ++ " rules\n\n" ++
    "    PERFORMANCE\n" ++ ruler ++
    "    Duration                  " ++ Nat.repr info.durationMs ++ "ms\n" ++
    "    Classes indexed           " ++ Nat.repr info.classesIndexed ++ "\n" ++
    "    Failed files              " ++ Nat.repr info.failed.length ++ "\n" ++
    failedSection info.failed

/-- The weakness classes of a finding on a line of their own; nothing if there are none. -/
def weaknessLine (ids : List String) : String :=
  if ids.isEmpty then "" else "    • " ++ String.intercalate ", " ids ++ "\n"

/-- One finding. -/
def entry (f : Finding) : String :=
  coloured f.severity ++ " " ++ f.file ++ ":" ++ Nat.repr f.line ++ " " ++ f.ruleId ++
    " [" ++ f.label ++ "]\n" ++
    "    " ++ f.message ++ "\n" ++
    "    ↳  " ++ Text.trim f.excerpt ++ "\n" ++
    weaknessLine f.weaknesses ++ "\n"

/-- The findings under their heading. -/
def results (findings : List Finding) : String :=
  box "Results" ++ "\n" ++
    if findings.isEmpty then "✔ No issues found.\n"
    else
      let count := Nat.repr findings.length
      "⚠ Found " ++ count ++ " issue(s):\n\n" ++
        String.join (findings.map entry) ++ "Total: " ++ count ++ "\n"

/-- The report of a scan for people. -/
def text (findings : List Finding) (info : Option ScanInfo) : String :=
  ((info.map fun i => summary i ++ "\n").getD "") ++ results findings

end Report

end PhpAudit
