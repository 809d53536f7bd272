import PhpAudit.Text.Blank

/-!
# Words of a command line

A command takes long options, each with a value, long flags and at most one positional word. The value
of an option stands behind an equals sign or in the next word, which may not start with a hyphen. A
value is looked at only once the next option, flag or positional word follows or the words end, so the
faults of a command line come in that order; a word that no option explains is a fault at once. Two
hyphens end the options.
-/

namespace PhpAudit

/-- What is wrong with a command line, or what it asks for instead of a run. -/
inductive UsageError
  | helpAsked
  | versionAsked
  | commandMissing
  | unknownCommand
  | positionalMissing
  | unknownArgument
  | repeated
  | badChoice
  | badValue
  | unwantedValue
  deriving DecidableEq, Repr

/-- The exit code for a command line that is not run. -/
def UsageError.exitCode : UsageError → Nat
  | helpAsked | versionAsked => 0
  | _ => 2

namespace Words

/-- How an accepted word changes the arguments read so far. -/
abbrev Accept (α : Type) := String → α → Except UsageError α

/-- What a command takes. -/
structure Spec (α : Type) where
  /-- The options, by their names without hyphens. -/
  option? : String → Option (Accept α)
  /-- The flags, by their names without hyphens. -/
  flag? : String → Option (α → Except UsageError α)
  /-- What a positional word does, if the command takes one. -/
  positional? : Option (Accept α)

/-- A word as it looks from outside. -/
inductive Shape
  /-- Two hyphens alone. -/
  | divider
  /-- `--name` or `--name=value`. -/
  | long (name : String) (value : Option String)
  /-- A hyphen and letters. -/
  | short (letters : List Char)
  | plain (word : String)

/-- The shape of a word. -/
def shapeOf (word : String) : Shape :=
  match word.toList with
  | ['-', '-'] => .divider
  | '-' :: '-' :: rest =>
    match Text.splitFirst? '=' (String.ofList rest) with
    | some (name, value) => .long name (some value)
    | none => .long (String.ofList rest) none
  | '-' :: c :: rest => .short (c :: rest)
  | _ => .plain word

/-- How far a command line has been read. `pending` is the option or positional word last met, with
its value if there is one yet. -/
structure State (α : Type) where
  args : α
  pending : Option (Accept α × Option String) := none
  /-- Whether the positional word has been met. -/
  placed : Bool := false

variable {α : Type}

/-- Takes in what is pending; an option without a value is a fault. -/
def settle (st : State α) : Except UsageError α :=
  match st.pending with
  | none => .ok st.args
  | some (_, none) => .error .badChoice
  | some (accept, some value) => accept value st.args

/-- Reads a positional word. -/
def place (spec : Spec α) (st : State α) (word : String) : Except UsageError (State α) :=
  match spec.positional?, st.placed with
  | some accept, false => do
    return { args := ← settle st, pending := some (accept, some word), placed := true }
  | _, _ => .error .unknownArgument

/-- Reads an option or a flag. -/
def readLong (spec : Spec α) (st : State α) (name : String) (value : Option String) :
    Except UsageError (State α) :=
  match spec.option? name, spec.flag? name, value with
  | some accept, _, some v => do
    let args ← settle st
    return { st with args := ← accept v args, pending := none }
  | some accept, _, none => do
    return { st with args := ← settle st, pending := some (accept, none) }
  | none, some _, some _ => .error .unwantedValue
  | none, some set, none => do
    let args ← settle st
    return { st with args := ← set args, pending := none }
  | none, none, some _ =>
    .error (if name = "help" then .unwantedValue else .unknownArgument)
  | none, none, none =>
    if name = "help" then (settle st).bind (fun _ => .error .helpAsked)
    else .error .unknownArgument

/-- Reads one word in front of the divider. -/
def readWord (spec : Spec α) (st : State α) (word : String) : Except UsageError (State α) :=
  match shapeOf word with
  | .long name value => readLong spec st name value
  | .short (c :: _) =>
    if c = 'h' then (settle st).bind (fun _ => .error .helpAsked) else .error .unknownArgument
  | _ =>
    match st.pending with
    | some (accept, none) => .ok { st with pending := some (accept, some word) }
    | _ => place spec st word

/-- Reads the words of a command. -/
def readAll (spec : Spec α) (st : State α) : List String → Except UsageError (State α)
  | [] => .ok st
  | "--" :: words => words.foldlM (place spec) st
  | word :: words => (readWord spec st word).bind (fun st => readAll spec st words)

/-- Reads the words of a command into its arguments. -/
def parse (spec : Spec α) (start : α) (words : List String) : Except UsageError α :=
  (readAll spec { args := start } words).bind settle

/-! ## Commands -/

/-- What is asked with the word `help`: every further word has to name a command of the one before. -/
def help (known : String → List String → Bool) : List String → UsageError
  | [] => .helpAsked
  | word :: words => if known word words then .helpAsked else .unknownCommand

/-- Finds the command that a command line names and the words that follow it. -/
def command (names : List String) (hasVersion : Bool) (words : List String) :
    Except UsageError (String × List String) :=
  match words with
  | [] => .error .commandMissing
  | word :: rest =>
    match shapeOf word with
    | .divider =>
      match rest with
      | [] => .error .commandMissing
      | next :: _ => .error (if names.contains next then .unknownArgument else .unknownCommand)
    | .long name value =>
      if name = "help" || (hasVersion && name = "version") then
        if value.isSome then .error .unwantedValue
        else .error (if name = "help" then .helpAsked else .versionAsked)
      else .error .unknownArgument
    | .short letters =>
      if letters.head? = some 'h' then .error .helpAsked
      else if hasVersion && letters.head? = some 'v' then .error .versionAsked
      else .error .unknownArgument
    | .plain name => if names.contains name then .ok (name, rest) else .error .unknownCommand

end Words

end PhpAudit
