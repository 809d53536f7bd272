import PhpAudit.Cli.Config

/-!
# Text of configuration files

The part of TOML that configuration files need: comments, table headers, and one `key = value` per line,
the value being a string, an integer, a boolean or a list of these on one line.
-/

namespace PhpAudit.ConfigText

/-- The character that an escape in a string stands for. -/
def unescape? : Char → Option Char
  | '"' => some '"'
  | '\\' => some '\\'
  | 'n' => some '\n'
  | 't' => some '\t'
  | 'r' => some '\r'
  | 'b' => some '\x08'
  | 'f' => some '\x0c'
  | _ => none

/-- Reads a string up to its closing quote, and what follows it. -/
def quoted : List Char → Option (List Char × List Char)
  | [] => none
  | '"' :: rest => some ([], rest)
  | '\\' :: c :: rest => do
    let d ← unescape? c
    let (cs, rest) ← quoted rest
    return (d :: cs, rest)
  | c :: rest => do
    let (cs, rest) ← quoted rest
    return (c :: cs, rest)

/-- Reads a string without escapes up to its closing quote, and what follows it. -/
def literal : List Char → Option (List Char × List Char)
  | [] => none
  | c :: rest =>
    if c = '\'' then some ([], rest)
    else do
      let (cs, rest) ← literal rest
      return (c :: cs, rest)

/-- The number that a sign and decimal digits stand for. -/
def integer? (word : List Char) : Option Int :=
  let (sign, digits) : Int × List Char := match word with
    | '-' :: rest => (-1, rest)
    | '+' :: rest => (1, rest)
    | cs => (1, cs)
  if digits.isEmpty || !digits.all Char.isDigit then none
  else some (sign * digits.foldl (fun (n : Int) c => 10 * n + (c.toNat - 48 : Nat)) 0)

/-- Whether a character ends a word. -/
def endsWord (c : Char) : Bool := c == ',' || c == ']' || c == '#' || Text.isBlank c

/-- Reads a string, a number or a truth value, and what follows it. -/
def scalar? : List Char → Option (Setting × List Char)
  | '"' :: rest => (quoted rest).map fun (cs, rest) => (.text (String.ofList cs), rest)
  | '\'' :: rest => (literal rest).map fun (cs, rest) => (.text (String.ofList cs), rest)
  | cs =>
    let word := cs.takeWhile (fun c => !endsWord c)
    let rest := cs.dropWhile (fun c => !endsWord c)
    match String.ofList word with
    | "true" => some (.flag true, rest)
    | "false" => some (.flag false, rest)
    | _ => (integer? word).map (.integer ·, rest)

/-- Reads the items of a list up to its closing bracket, and what follows it. -/
def itemsFrom : Nat → List Char → Option (List Setting × List Char)
  | 0, _ => none
  | fuel + 1, cs =>
    match cs.dropWhile Text.isBlank with
    | ']' :: rest => some ([], rest)
    | cs => do
      let (item, rest) ← scalar? cs
      match rest.dropWhile Text.isBlank with
      | ',' :: rest =>
        let (items, rest) ← itemsFrom fuel rest
        return (item :: items, rest)
      | ']' :: rest => return ([item], rest)
      | _ => none

/-- Reads a value, and what follows it. -/
def value? : List Char → Option (Setting × List Char)
  | '[' :: rest => (itemsFrom (rest.length + 1) rest).map fun (items, rest) => (.list items, rest)
  | cs => scalar? cs

/-- Whether nothing but a comment follows on a line. -/
def isEnd (cs : List Char) : Bool :=
  match cs.dropWhile Text.isBlank with
  | [] => true
  | c :: _ => c == '#'

/-- Whether a text can stand as a key without quotes. -/
def isKey (s : String) : Bool :=
  !s.isEmpty && s.toList.all fun c => c.isAlphanum || c == '_' || c == '-'

/-- The tables read so far, the last one first, each with its fields in reverse. -/
abbrev Draft := List (String × List (String × Setting))

/-- Takes in one line. -/
def readLine (tables : Draft) (line : String) : Option Draft :=
  let cs := (Text.trim line).toList
  if isEnd cs then some tables
  else
    match cs with
    | '[' :: rest =>
      let name := Text.trim (String.ofList (rest.takeWhile (· != ']')))
      match rest.dropWhile (· != ']') with
      | _ :: after =>
        if isKey name && isEnd after && (tables.lookup name).isNone then some ((name, []) :: tables)
        else none
      | [] => none
    | _ => do
      let (key, rest) ← Text.splitFirst? '=' (String.ofList cs)
      let key := Text.trim key
      let (value, after) ← value? (Text.trimStart rest).toList
      match tables with
      | (name, fields) :: others =>
        if isKey key && isEnd after && (fields.lookup key).isNone then
          some ((name, (key, value) :: fields) :: others)
        else none
      | [] => none

/-- Reads the text of a configuration file. Fields in front of the first table belong to the whole. -/
def read : Config.Reader := fun text => do
  let tables ← (Text.lines text).foldlM readLine [("", [])]
  let named := tables.reverse.filterMap fun (name, fields) =>
    if name.isEmpty then none else some (name, Setting.table fields.reverse)
  return .table (((tables.lookup "").getD []).reverse ++ named)

end PhpAudit.ConfigText
