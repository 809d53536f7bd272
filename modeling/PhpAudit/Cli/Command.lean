import PhpAudit.Cli.Words
import PhpAudit.Files.Glob
import PhpAudit.Report.Format
import PhpAudit.Severity
import PhpAudit.Word

/-!
# Commands

The program scans a project or lists its rules. This module reads a command line into the command it
stands for.
-/

namespace PhpAudit

/-- The arguments of a scan. -/
structure ScanArgs where
  path : String := ""
  format : Format := .text
  failOn : Option Severity := none
  threads : Option Nat := none
  exclude : List Glob := []
  noDefaultExclude : Bool := false
  maxFileSize : Option Nat := none
  timeoutMs : Option Nat := none
  metrics : Option String := none
  suppressComment : Option String := none
  disabled : List String := []
  config : Option String := none
  debug : Bool := false
  quiet : Bool := false

/-- What the program is asked to do. -/
inductive Command
  | scan (args : ScanArgs)
  | listRules (config : Option String)

namespace Command

/-- The arguments of a scan as far as they have been read. What is not given yet is missing. -/
structure ScanDraft where
  path : Option String := none
  format : Option Format := none
  failOn : Option Severity := none
  threads : Option Nat := none
  exclude : List Glob := []
  noDefaultExclude : Bool := false
  maxFileSize : Option Nat := none
  timeoutMs : Option Nat := none
  metrics : Option String := none
  suppressComment : Option String := none
  disabled : List String := []
  config : Option String := none
  debug : Bool := false
  quiet : Bool := false

/-! ## Values -/

/-- A value that may be given once only. -/
def once {β : Type} (current : Option β) (read : Except UsageError β) :
    Except UsageError (Option β) :=
  if current.isSome then .error .repeated else read.map some

/-- A flag that may be given once only. -/
def onceFlag (current : Bool) : Except UsageError Bool :=
  if current then .error .repeated else .ok true

/-- A path, which may not be empty. -/
def readPath (word : String) : Except UsageError String :=
  if word.isEmpty then .error .badChoice else .ok word

/-- A report format. -/
def readFormat (word : String) : Except UsageError Format :=
  match Format.ofWord? word with
  | some f => .ok f
  | none => .error .badChoice

/-- A severity. -/
def readSeverity (word : String) : Except UsageError Severity :=
  match Severity.parse word with
  | .ok s => .ok s
  | .error _ => .error .badValue

/-- The number that decimal digits stand for. -/
def digitsValue (digits : List Char) : Nat :=
  digits.foldl (fun n c => 10 * n + (c.toNat - 48)) 0

/-- An unsigned number of 64 bits: decimal digits, with a plus sign or without. -/
def readNat (word : String) : Except UsageError Nat :=
  let digits := match word.toList with
    | '+' :: rest => rest
    | cs => cs
  if !digits.isEmpty && digits.all Char.isDigit && digitsValue digits < Word.count then
    .ok (digitsValue digits)
  else .error .badValue

/-- A number of threads, at least one. -/
def readThreads (word : String) : Except UsageError Nat :=
  match readNat word with
  | .ok 0 => .error .badValue
  | r => r

/-- Patterns divided by commas. -/
def readPatterns (engine : Glob.Engine) (word : String) : Except UsageError (List Glob) :=
  (Text.splitAt ',' word).mapM fun pattern =>
    match Glob.parseExclude engine pattern with
    | .ok glob => .ok glob
    | .error _ => .error .badValue

/-! ## The two commands -/

/-- The options of a scan. -/
def scanOption? (engine : Glob.Engine) : String → Option (Words.Accept ScanDraft)
  | "format" => some fun w d => return { d with format := ← once d.format (readFormat w) }
  | "fail-on" => some fun w d => return { d with failOn := ← once d.failOn (readSeverity w) }
  | "threads" => some fun w d => return { d with threads := ← once d.threads (readThreads w) }
  | "exclude" => some fun w d => return { d with exclude := d.exclude ++ (← readPatterns engine w) }
  | "max-file-size" =>
    some fun w d => return { d with maxFileSize := ← once d.maxFileSize (readNat w) }
  | "timeout-file-ms" =>
    some fun w d => return { d with timeoutMs := ← once d.timeoutMs (readNat w) }
  | "metrics" => some fun w d => return { d with metrics := ← once d.metrics (readPath w) }
  | "suppress-comment" =>
    some fun w d => return { d with suppressComment := ← once d.suppressComment (.ok w) }
  | "disable-rule" => some fun w d => return { d with disabled := d.disabled ++ [w] }
  | "config" => some fun w d => return { d with config := ← once d.config (readPath w) }
  | _ => none

/-- The flags of a scan. -/
def scanFlag? : String → Option (ScanDraft → Except UsageError ScanDraft)
  | "no-default-exclude" =>
    some fun d => return { d with noDefaultExclude := ← onceFlag d.noDefaultExclude }
  | "debug" => some fun d => return { d with debug := ← onceFlag d.debug }
  | "quiet" => some fun d => return { d with quiet := ← onceFlag d.quiet }
  | _ => none

/-- What a scan takes. -/
def scanSpec (engine : Glob.Engine) : Words.Spec ScanDraft where
  option? := scanOption? engine
  flag? := scanFlag?
  positional? := some fun w d => return { d with path := some (← readPath w) }

/-- The arguments of a scan, once a path is given. -/
def ScanDraft.finish (d : ScanDraft) : Except UsageError ScanArgs :=
  match d.path with
  | none => .error .positionalMissing
  | some path =>
    .ok { path := path, format := d.format.getD .text, failOn := d.failOn, threads := d.threads,
          exclude := d.exclude, noDefaultExclude := d.noDefaultExclude,
          maxFileSize := d.maxFileSize, timeoutMs := d.timeoutMs, metrics := d.metrics,
          suppressComment := d.suppressComment, disabled := d.disabled, config := d.config,
          debug := d.debug, quiet := d.quiet }

/-- Reads the words of a scan. -/
def parseScan (engine : Glob.Engine) (words : List String) : Except UsageError ScanArgs :=
  (Words.parse (scanSpec engine) {} words).bind ScanDraft.finish

/-- What the list of rules takes; the argument is the configuration file. -/
def listSpec : Words.Spec (Option String) where
  option? := fun name =>
    if name = "config" then some fun w given => once given (readPath w) else none
  flag? := fun _ => none
  positional? := none

/-- Whether words name a command below `rules`. -/
def isRulesTopic (word : String) (rest : List String) : Bool :=
  ["list", "help"].contains word && rest.isEmpty

/-- Whether words name a command of the program. -/
def isTopic (word : String) (rest : List String) : Bool :=
  if ["rules", "rule"].contains word then
    match rest with
    | [] => true
    | next :: more => isRulesTopic next more
  else ["scan", "help"].contains word && rest.isEmpty

/-- Reads the words behind `rules`. -/
def parseRules (words : List String) : Except UsageError Command := do
  let (name, rest) ← Words.command ["list", "help"] false words
  if name = "help" then throw (Words.help isRulesTopic rest)
  return .listRules (← Words.parse listSpec none rest)

/-- Reads a command line, without the name of the program. -/
def parse (engine : Glob.Engine) (words : List String) : Except UsageError Command := do
  let (name, rest) ← Words.command ["scan", "rules", "rule", "help"] true words
  if name = "help" then throw (Words.help isTopic rest)
  if name = "scan" then return .scan (← parseScan engine rest)
  parseRules rest

end Command

end PhpAudit
