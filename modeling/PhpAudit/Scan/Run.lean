import PhpAudit.Rule.Basic
import PhpAudit.Scan.Load

/-!
# Scans

A scan loads the files at a list of paths, builds the class hierarchy of those that load, and
evaluates a catalog on each of them. Files that fail to load are listed with the reason and do not
disturb the others. A file may have a budget of time, which is looked at before each rule and after
the last one; a file that exceeds it is listed as failed and its findings are dropped.
-/

namespace PhpAudit

/-- The milliseconds spent on a file, by its position among those that load, once a number of rules have
been evaluated. A path that is listed twice is timed twice. -/
abbrev Clock := Nat → Nat → Nat

/-- Evaluates one rule on one file of a project. -/
abbrev Scanner := Context → Rule → List Finding

/-- The scanner that walks the syntax tree. -/
def Scanner.tree : Scanner := fun cx r => r.findings cx

/-- What a scan may do with a file. -/
structure ScanOptions where
  /-- Findings on a line that holds this text are dropped. -/
  marker : Option String := none
  /-- Milliseconds that a file may take. -/
  budget : Option Nat := none

/-- What the rules make of one file: the ids of those evaluated, their findings, and whether the
budget was exceeded. -/
structure Evaluation where
  evaluated : List String
  findings : List Finding
  timedOut : Bool

/-- Evaluates rules in turn until the budget is exceeded. -/
def evaluateFrom (scan : Rule → List Finding) (expired : Nat → Bool) (done : Nat) :
    List Rule → Evaluation
  | [] => ⟨[], [], expired done⟩
  | r :: rules =>
    if expired done then ⟨[], [], true⟩
    else
      let rest := evaluateFrom scan expired (done + 1) rules
      ⟨r.id :: rest.evaluated, scan r ++ rest.findings, rest.timedOut⟩

/-- Whether the time spent on a file exceeds its budget. -/
def ScanOptions.expired (options : ScanOptions) (clock : Clock) (position done : Nat) : Bool :=
  options.budget.any (fun ms => ms ≤ clock position done)

/-- Evaluates a catalog on the file at a position. -/
def Catalog.evaluate (c : Catalog) (scanner : Scanner) (options : ScanOptions) (clock : Clock)
    (position : Nat) (cx : Context) : Evaluation :=
  evaluateFrom (scanner cx) (options.expired clock position) 0 c.rules

/-- Why a file has no findings to show. -/
inductive Failure
  | load (fault : LoadFault)
  | overBudget (milliseconds : Nat)
  deriving DecidableEq, Repr

/-- What is said about a file that failed. -/
def Failure.reason : Failure → String
  | load fault => fault.message
  | overBudget milliseconds =>
    "analysis exceeded the " ++ Nat.repr milliseconds ++ " ms file budget"

/-- A file that failed. -/
structure FailedFile where
  path : String
  reason : String
  deriving DecidableEq, Repr, Inhabited

/-- The outcome of a scan. `evaluations` has the files that loaded with what the rules made of them,
in the order of the paths. -/
structure ScanReport where
  findings : List Finding
  failed : List FailedFile
  rulesLoaded : Nat
  loadFailures : Nat
  classes : Hierarchy
  evaluations : List (SourceFile × Evaluation)

namespace ScanReport

/-- The number of files that loaded. -/
def filesScanned (r : ScanReport) : Nat := r.evaluations.length

/-- Whether a finding is at least as serious as the threshold. -/
def reaches (r : ScanReport) (threshold : Severity) : Bool :=
  r.findings.any (fun f => f.severity.reaches threshold)

/-- The number of evaluations of a rule on a file. -/
def evaluationCount (r : ScanReport) : Nat :=
  r.evaluations.foldl (fun n e => n + e.2.evaluated.length) 0

end ScanReport

namespace Scan

/-- The files among load results, in order. -/
def loaded (results : List (String × Except LoadFault (Option SourceFile))) : List SourceFile :=
  results.filterMap fun
    | (_, .ok (some f)) => some f
    | _ => none

/-- The faults among load results, in order. -/
def faults (results : List (String × Except LoadFault (Option SourceFile))) : List FailedFile :=
  results.filterMap fun
    | (path, .error fault) => some ⟨path, (Failure.load fault).reason⟩
    | _ => none

/-- The findings of a file that are reported: none if the budget was exceeded, else those on lines
that are not suppressed. -/
def kept (f : SourceFile) (e : Evaluation) : List Finding :=
  if e.timedOut then [] else e.findings.filter (fun x => !f.suppressed.contains x.line)

/-- The entry of a file that exceeded its budget. -/
def overBudget? (options : ScanOptions) (f : SourceFile) (e : Evaluation) : Option FailedFile :=
  if e.timedOut then some ⟨f.path, (Failure.overBudget (options.budget.getD 0)).reason⟩ else none

/-- Evaluates a catalog on the files that load. -/
def run (scanner : Scanner) (catalog : Catalog) (options : ScanOptions) (clock : Clock)
    (load : String → Except LoadFault (Option SourceFile)) (paths : List String) : ScanReport :=
  let results := paths.map fun path => (path, load path)
  let files := loaded results
  let classes := Hierarchy.build files
  let evaluations := files.mapIdx fun i f =>
    (f, catalog.evaluate scanner options clock i ⟨f, classes⟩)
  { findings := evaluations.flatMap fun (f, e) => kept f e
    failed := faults results ++ evaluations.filterMap fun (f, e) => overBudget? options f e
    rulesLoaded := catalog.size
    loadFailures := (faults results).length
    classes := classes
    evaluations := evaluations }

end Scan

end PhpAudit
