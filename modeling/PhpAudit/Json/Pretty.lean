import PhpAudit.Json.Value

/-!
# Written JSON

The written form of a document: two spaces of indent per level, one item or field per line, nothing
between the brackets of an empty list or object, and only those characters escaped that a JSON text
may not hold as they are.
-/

namespace PhpAudit.Json

/-- The hexadecimal digit of a number below sixteen. -/
def hexDigit (n : Nat) : Char :=
  if n < 10 then Char.ofNat (48 + n) else Char.ofNat (87 + n)

/-- One character as it stands in a written text: quote, backslash and the control characters below
the blank are escaped. -/
def escapeChar (c : Char) : List Char :=
  if c = '"' then ['\\', '"']
  else if c = '\\' then ['\\', '\\']
  else if c = '\n' then ['\\', 'n']
  else if c = '\r' then ['\\', 'r']
  else if c = '\t' then ['\\', 't']
  else if c.toNat = 8 then ['\\', 'b']
  else if c.toNat = 12 then ['\\', 'f']
  else if c.toNat < 32 then ['\\', 'u', '0', '0', hexDigit (c.toNat / 16), hexDigit (c.toNat % 16)]
  else [c]

/-- A text between quotes. -/
def quote (s : String) : String :=
  "\"" ++ String.ofList (s.toList.flatMap escapeChar) ++ "\""

/-- A number in decimal digits. -/
def decimal : Int → String
  | .ofNat n => Nat.repr n
  | .negSucc n => "-" ++ Nat.repr (n + 1)

/-- A line end and the indent of the given level. -/
def newline (level : Nat) : String :=
  String.ofList ('\n' :: List.replicate (2 * level) ' ')

mutual

/-- The written form of a document whose surroundings are indented by `level`. -/
def render (level : Nat) : Json → String
  | null => "null"
  | bool true => "true"
  | bool false => "false"
  | num n => decimal n
  | str s => quote s
  | arr [] => "[]"
  | arr (item :: items) =>
    "[" ++ newline (level + 1) ++ render (level + 1) item ++ renderItems (level + 1) items ++
      newline level ++ "]"
  | obj [] => "\x7b\x7d"
  | obj ((name, value) :: fields) =>
    "\x7b" ++ newline (level + 1) ++ quote name ++ ": " ++ render (level + 1) value ++
      renderFields (level + 1) fields ++ newline level ++ "\x7d"

/-- The further items of a list, each behind a comma on a line of its own. -/
def renderItems (level : Nat) : List Json → String
  | [] => ""
  | item :: items => "," ++ newline level ++ render level item ++ renderItems level items

/-- The further fields of an object, each behind a comma on a line of its own. -/
def renderFields (level : Nat) : List (String × Json) → String
  | [] => ""
  | (name, value) :: fields =>
    "," ++ newline level ++ quote name ++ ": " ++ render level value ++ renderFields level fields

end

/-- The written form of a document. -/
def pretty (j : Json) : String := render 0 j

end PhpAudit.Json
