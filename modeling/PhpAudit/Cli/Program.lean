import PhpAudit.Cli.Settings
import PhpAudit.Files.Walk
import PhpAudit.Json.Pretty
import PhpAudit.Report.Document
import PhpAudit.Report.Sarif
import PhpAudit.Report.Summary
import PhpAudit.Rule.Builtin
import PhpAudit.Scan.Metrics

/-!
# The program

A run of the program as a function of the command line and of the world it is started in: the files,
the environment, the grammar, the engine for patterns, the reader of configuration files and the clock.
Its result is what the program prints, the files it leaves behind and its exit code.
-/

namespace PhpAudit

/-- What a run depends on besides the command line. -/
structure World where
  files : FileTree
  home : Option String
  grammar : Grammar
  engine : Glob.Engine
  reader : Config.Reader
  clock : Clock
  /-- The milliseconds that the scan takes. -/
  duration : Nat := 0

/-- What goes wrong in a run. -/
inductive RunError
  /-- The configuration of a scan cannot be loaded. -/
  | noConfiguration (cause : ConfigError)
  | configuration (cause : ConfigError)
  | inaccessible (path : String) (cause : FileError)
  | walk (cause : FileError)
  | unwritable (path : String) (cause : FileError)
  deriving DecidableEq, Repr

/-- What is said about a run that goes wrong. -/
def RunError.message : RunError → String
  | noConfiguration _ => "failed to load configuration"
  | configuration cause => cause.message
  | inaccessible path _ => "failed to access " ++ path
  | walk cause => cause.message
  | unwritable path _ => "failed to write metrics to " ++ path

/-- What a run leaves behind. -/
structure Outcome where
  files : FileTree
  output : String := ""
  error : Option RunError := none
  /-- Whether a threshold of severity was reached. -/
  thresholdReached : Bool := false
  /-- Whether the header was printed. -/
  banner : Bool := false
  /-- Whether the run was told to log at all, and in detail. -/
  logging : Bool := false
  debugging : Bool := false
  /-- Text for the error channel besides header, error and log. -/
  notes : String := ""

/-- The exit code of a run. -/
def Outcome.code (o : Outcome) : Nat :=
  if o.error.isSome || o.thresholdReached then 1 else 0

namespace Program

/-- The version that the program shows. -/
def version : String := "1.0.0"

/-- What the program prints when it is asked for its version. -/
def versionText : String := "rootcause-php " ++ version ++ "\n"

/-- The report of a scan in the given format. -/
def render (format : Format) (report : ScanReport) (catalog : Catalog) (info : ScanInfo) : String :=
  match format with
  | .text => Report.text report.findings (some info)
  | .json => Report.json report.findings
  | .sarif => Sarif.render report.findings catalog

/-! ## The list of rules -/

/-- One rule with its classification. -/
def describeRule (disabled : Bool) (r : Rule) : String :=
  r.id ++ (if disabled then " (disabled)" else "") ++ "\n" ++
    "    Name:        " ++ r.name ++ "\n" ++
    "    Severity:    " ++ r.severity.label ++ "\n" ++
    String.join (r.weaknesses.map fun w =>
      "    Weakness:    " ++ w.describe ++ "\n                 " ++ w.url ++ "\n") ++
    "    Description: " ++ r.description ++ "\n\n"

/-- The rules of a catalog, those that are disabled marked. -/
def describeRules (catalog : Catalog) (disabled : List String) : String :=
  String.join (catalog.rules.map fun r => describeRule (disabled.contains r.id) r) ++
    Nat.repr catalog.size ++ " rules, " ++ Nat.repr (catalog.without disabled).size ++ " enabled\n"

/-- Lists the built-in rules. -/
def listRules (w : World) (config : Option String) : Outcome :=
  let checked : Except ConfigError Config := do
    let config ← Config.load w.files w.reader w.home config
    config.validate w.engine .builtin
    return config
  match checked with
  | .ok config => { files := w.files, output := describeRules .builtin config.disabled }
  | .error cause => { files := w.files, error := some (.configuration cause) }

/-! ## Scans -/

/-- The PHP files that a scan of a path takes in, the path being absolute and free of links. -/
def filesToScan (engine : Glob.Engine) (t : FileTree) (settings : Settings) (path : String) :
    Except FileError (List String) :=
  let patterns := settings.excludes ++ Exclusion.ofIgnoreFiles engine t path
  Walk.phpFiles t (Exclusion.excludes t patterns settings.maxFileSize) path

/-- Writes the measurements of a scan where the arguments ask for them. -/
def writeMetrics (args : ScanArgs) (metrics : String) (o : Outcome) : Outcome :=
  match args.metrics with
  | none => o
  | some "-" => if args.quiet then o else { o with notes := o.notes ++ metrics ++ "\n" }
  | some path =>
    match o.files.write path metrics with
    | .ok files => { o with files := files }
    | .error cause => { o with error := some (.unwritable path cause) }

/-- Scans the files at a path and reports on them. -/
def report (w : World) (args : ScanArgs) (settings : Settings) (paths : List String) (o : Outcome) :
    Outcome :=
  let catalog := settings.catalog .builtin
  let options : ScanOptions :=
    { marker := some settings.suppressComment, budget := settings.timeoutMs }
  let load := SourceFile.load w.files w.grammar options.marker
  let result := Scan.run .tree catalog options w.clock load paths
  let info : ScanInfo :=
    { rulesLoaded := result.rulesLoaded, filesAnalyzed := paths.length,
      classesIndexed := result.classes.size, durationMs := w.duration, failed := result.failed }
  writeMetrics args (result.metrics w.clock).pretty
    { o with
      output := render args.format result catalog info
      thresholdReached := settings.failOn.any result.reaches }

/-- Scans a project. -/
def scan (w : World) (args : ScanArgs) : Outcome :=
  let start : Outcome := { files := w.files, debugging := args.debug && !args.quiet }
  match Config.load w.files w.reader w.home args.config with
  | .error cause => { start with error := some (.noConfiguration cause) }
  | .ok config =>
    match Settings.resolve w.engine args config .builtin with
    | .error cause => { start with error := some (.configuration cause) }
    | .ok settings =>
      let shown := { start with banner := args.format == Format.text && !args.quiet }
      match w.files.canonical args.path with
      | .error cause => { shown with error := some (.inaccessible args.path cause) }
      | .ok path =>
        let begun := { shown with logging := !args.quiet }
        match filesToScan w.engine w.files settings path with
        | .error cause => { begun with error := some (.walk cause) }
        | .ok paths => report w args settings paths begun

/-- Runs a command. -/
def run (w : World) : Command → Outcome
  | .scan args => scan w args
  | .listRules config => listRules w config

end Program

end PhpAudit
