import PhpAudit.Json.Value
import PhpAudit.Scan.Run

/-!
# Measurements of a scan

The time spent on each file and on each rule, and the counts of a scan, as a document.
-/

namespace PhpAudit

/-- Adds an amount under a name in a list that is ordered by name. -/
def addAmount (name : String) (amount : Nat) : List (String × Nat) → List (String × Nat)
  | [] => [(name, amount)]
  | (n, a) :: rest =>
    if name < n then (name, amount) :: (n, a) :: rest
    else if name = n then (n, a + amount) :: rest
    else (n, a) :: addAmount name amount rest

/-- Sets an amount under a name in a list that is ordered by name. -/
def setAmount (name : String) (amount : Nat) : List (String × Nat) → List (String × Nat)
  | [] => [(name, amount)]
  | (n, a) :: rest =>
    if name < n then (name, amount) :: (n, a) :: rest
    else if name = n then (n, amount) :: rest
    else (n, a) :: setAmount name amount rest

namespace ScanReport

/-- The milliseconds spent on each file, by path; of a file scanned twice the second time counts. -/
def fileTimes (r : ScanReport) (clock : Clock) : List (String × Nat) :=
  r.evaluations.zipIdx.foldl (fun times ((f, e), position) =>
    setAmount f.path (clock position e.evaluated.length) times) []

/-- The milliseconds spent on each rule, by id, over all files. -/
def ruleTimes (r : ScanReport) (clock : Clock) : List (String × Nat) :=
  let spent := r.evaluations.zipIdx.flatMap fun ((_, e), position) =>
    e.evaluated.zipIdx.map fun (id, i) => (id, clock position (i + 1) - clock position i)
  spent.foldl (fun times (id, ms) => addAmount id ms times) []

/-- Amounts by name as a document. -/
def amountsJson (amounts : List (String × Nat)) : Json :=
  .obj (amounts.map fun (name, amount) => (name, .nat amount))

/-- The measurements of a scan as a document. -/
def metrics (r : ScanReport) (clock : Clock) : Json :=
  .obj [("file_times_ms", amountsJson (r.fileTimes clock)),
    ("rule_times_ms", amountsJson (r.ruleTimes clock)),
    ("classes_indexed", .nat r.classes.size),
    ("findings", .nat r.findings.length),
    ("parser", .obj [("files_parsed", .nat r.filesScanned),
      ("parse_errors", .nat r.loadFailures)])]

end ScanReport

end PhpAudit
