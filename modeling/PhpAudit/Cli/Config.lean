import PhpAudit.Files.Exclusion
import PhpAudit.Rule.Basic
import PhpAudit.Word

/-!
# Configuration files

A configuration is a table with the tables `rules` and `scan`. Keys that are not known are passed over;
a value of the wrong kind, or one that is nested too deeply, makes the whole file unreadable. A table may
also be written as the list of its values in their order. What the values mean is checked apart, against
the catalog of rules.
-/

namespace PhpAudit

/-- A value in a configuration file. -/
inductive Setting where
  | text (s : String)
  | integer (n : Int)
  | flag (b : Bool)
  | list (items : List Setting)
  | table (fields : List (String × Setting))
  | other
  deriving Inhabited

namespace Setting

/-- The value under a key of a table. -/
def get? (s : Setting) (key : String) : Option Setting :=
  match s with
  | table fields => fields.lookup key
  | _ => none

/-- A text. -/
def asText? : Setting → Option String
  | text s => some s
  | _ => none

/-- A number that is not negative and fits into a signed word of 64 bits. -/
def asSize? : Setting → Option Nat
  | integer (.ofNat n) => if n < Word.half then some n else none
  | _ => none

/-- A list of texts. -/
def asTexts? : Setting → Option (List String)
  | list items => items.mapM asText?
  | _ => none

/-- A value that may be missing, but has to be of the right kind if it is there. -/
def optional {α : Type} (read : Setting → Option α) : Option Setting → Option (Option α)
  | none => some none
  | some s => (read s).map some

/-! ## Depth

A table of a file stands under a header with the names that lead to it, and so does every table of a list
of nothing but tables. All other lists, and the tables in them, are written in one piece. -/

/-- Headers have fewer names than this, and values in one piece have fewer levels. -/
def depthLimit : Nat := 80

/-- Whether a value is a table. -/
def isTable : Setting → Bool
  | table _ => true
  | _ => false

mutual

/-- The levels of lists and tables in a value. -/
def levels : Setting → Nat
  | list items => levelsOfItems items + 1
  | table fields => levelsOfFields fields + 1
  | _ => 0

/-- The largest number of levels in the values of a list. -/
def levelsOfItems : List Setting → Nat
  | [] => 0
  | s :: rest => max (levels s) (levelsOfItems rest)

/-- The largest number of levels in the values of a table. -/
def levelsOfFields : List (String × Setting) → Nat
  | [] => 0
  | (_, s) :: rest => max (levels s) (levelsOfFields rest)

end

mutual

/-- Whether a value to which `names` names lead keeps to the limits. -/
def fits : Setting → Nat → Bool
  | table fields, names => names < depthLimit && fieldsFit fields names
  | list items, names =>
    if !items.isEmpty && items.all isTable then itemsFit items names
    else levelsOfItems items + 1 < depthLimit
  | _, _ => true

/-- Whether the tables of a list keep to the limits. -/
def itemsFit : List Setting → Nat → Bool
  | [], _ => true
  | s :: rest, names => fits s names && itemsFit rest names

/-- Whether the values of a table to which `names` names lead keep to the limits. -/
def fieldsFit : List (String × Setting) → Nat → Bool
  | [], _ => true
  | (_, s) :: rest, names => fits s (names + 1) && fieldsFit rest names

end

end Setting

/-- What a configuration file says. -/
structure Config where
  /-- Ids of rules that are not evaluated. -/
  disabled : List String := []
  failOn : Option String := none
  suppressComment : Option String := none
  maxFileSize : Option Nat := none
  timeoutMs : Option Nat := none
  /-- Patterns of paths to leave out. -/
  exclude : List String := []
  deriving DecidableEq, Repr, Inhabited

namespace Config

/-- Reads the table of rules. -/
def readRules (c : Config) : Setting → Option Config
  | .list [] => some c
  | .list (ids :: _) => ids.asTexts?.map fun ids => { c with disabled := ids }
  | .table fields => do
    let ids ← Setting.optional Setting.asTexts? (fields.lookup "disabled")
    return { c with disabled := ids.getD [] }
  | _ => none

/-- Reads the table of scan settings. -/
def readScan (c : Config) : Setting → Option Config
  | .list (failOn :: comment :: size :: timeout :: rest) => do
    let exclude ← Setting.optional Setting.asTexts? rest.head?
    return { c with
      failOn := some (← failOn.asText?)
      suppressComment := some (← comment.asText?)
      maxFileSize := some (← size.asSize?)
      timeoutMs := some (← timeout.asSize?)
      exclude := exclude.getD [] }
  | .table fields => do
    let exclude ← Setting.optional Setting.asTexts? (fields.lookup "exclude")
    return { c with
      failOn := ← Setting.optional Setting.asText? (fields.lookup "fail_on")
      suppressComment := ← Setting.optional Setting.asText? (fields.lookup "suppress_comment")
      maxFileSize := ← Setting.optional Setting.asSize? (fields.lookup "max_file_size")
      timeoutMs := ← Setting.optional Setting.asSize? (fields.lookup "timeout_file_ms")
      exclude := exclude.getD [] }
  | _ => none

/-- Reads a part of a configuration, if it is there. -/
def readPart (read : Config → Setting → Option Config) (part : Option Setting) (c : Config) :
    Option Config :=
  match part with
  | none => some c
  | some s => read c s

/-- Reads the table of a whole file. -/
def ofSetting? (s : Setting) : Option Config :=
  match s with
  | .table fields =>
    if s.fits 0 then
      (readPart readRules (fields.lookup "rules") {}).bind
        (readPart readScan (fields.lookup "scan"))
    else none
  | _ => none

end Config

/-- What is wrong with a configuration or with the settings made from it. -/
inductive ConfigError
  | unreadable (path : String)
  | malformed (path : String)
  | unknownRule (id : String)
  | badSeverity
  | badPattern (pattern : String) (cause : GlobError)
  | unknownDisabledRule (id : String)
  deriving DecidableEq, Repr

/-- What is said about a faulty configuration. -/
def ConfigError.message : ConfigError → String
  | unreadable path => "failed to read " ++ path
  | malformed path => "failed to parse " ++ path
  | unknownRule id => "unknown rule id '" ++ id ++ "' in [rules] disabled"
  | badSeverity => "invalid [scan] fail_on"
  | badPattern pattern cause => "invalid exclude pattern '" ++ pattern ++ "': " ++ cause.message
  | unknownDisabledRule id => "unknown rule id '" ++ id ++ "' in --disable-rule"

namespace Config

/-- The threshold that a configuration sets. -/
def threshold (c : Config) : Except ConfigError (Option Severity) :=
  match c.failOn with
  | none => .ok none
  | some word =>
    match Severity.parse word with
    | .ok s => .ok (some s)
    | .error _ => .error .badSeverity

/-- Looks for ids that are not in the catalog. -/
def checkIds (catalog : Catalog) (fault : String → ConfigError) (ids : List String) :
    Except ConfigError Unit :=
  match ids.find? (fun id => !catalog.contains id) with
  | some id => .error (fault id)
  | none => .ok ()

/-- Reads the patterns of a configuration. -/
def patterns (c : Config) (engine : Glob.Engine) : Except ConfigError (List Glob) :=
  c.exclude.mapM fun pattern =>
    match Glob.parseExclude engine pattern with
    | .ok glob => .ok glob
    | .error cause => .error (.badPattern pattern cause)

/-- Checks a configuration against the catalog: first the ids of rules, then the threshold, then the
patterns. -/
def validate (c : Config) (engine : Glob.Engine) (catalog : Catalog) : Except ConfigError Unit := do
  checkIds catalog .unknownRule c.disabled
  let _ ← c.threshold
  let _ ← c.patterns engine
  return ()

/-- Reads the text of a configuration file into a value; a text that is not well formed has none. -/
abbrev Reader := String → Option Setting

/-- The configuration file of a user, by the home directory. -/
def userFile (home : Option String) : String :=
  Path.join (Path.join (Path.join (home.getD ".") ".config") "rootcause-php") "config.toml"

/-- Loads the configuration in a file. -/
def loadFile (t : FileTree) (reader : Reader) (path : String) : Except ConfigError Config :=
  match t.read path with
  | .error _ => .error (.unreadable path)
  | .ok text =>
    match (reader text).bind ofSetting? with
    | some c => .ok c
    | none => .error (.malformed path)

/-- Loads the given file, or else the user's, which need not exist. -/
def load (t : FileTree) (reader : Reader) (home given : Option String) :
    Except ConfigError Config :=
  match given with
  | some path => loadFile t reader path
  | none =>
    let path := userFile home
    if t.exists? path then loadFile t reader path else .ok {}

end Config

end PhpAudit
