import PhpAudit.Text.Ascii
import PhpAudit.Text.Blank

/-!
# Class names

A class name is written as identifiers joined by backslashes, with or without a leading one. Names
are compared after outer blanks and leading backslashes are dropped, and without regard to ASCII
case; `key` is the form under which two spellings of a class meet.
-/

namespace PhpAudit.ClassName

/-- The separator between the segments of a class name. -/
def separator : Char := '\\'

/-- Names that refer to the class they are written in. -/
def relativeNames : List String := ["self", "static", "parent"]

/-- Type keywords, which name no class. -/
def builtinTypes : List String :=
  ["array", "bool", "callable", "false", "float", "int", "iterable", "mixed", "never", "null",
    "object", "string", "true", "void"]

/-- The name without outer blanks and leading separators. -/
def normalize (name : String) : String :=
  Text.stripStart separator (Text.trim name)

/-- The last segment of a name. -/
def shortName (name : String) : String :=
  Text.afterLast separator (normalize name)

/-- The form that all spellings of one class share. -/
def key (name : String) : String :=
  Text.asciiLower (normalize name)

/-- Whether two names denote the same class. -/
def same (a b : String) : Bool :=
  Text.sameAscii (normalize a) (normalize b)

/-- Whether a name is `self`, `static` or `parent`. -/
def isRelative (name : String) : Bool :=
  Text.isOneOf relativeNames (Text.trim name)

/-- Whether a name is a type keyword. -/
def isBuiltinType (name : String) : Bool :=
  Text.isOneOf builtinTypes (normalize name)

/-- Two names joined by a separator. -/
def join (first rest : String) : String :=
  first ++ "\\" ++ rest

/-- A name placed in a namespace; the namespace without a name adds nothing. -/
def qualify (region name : String) : String :=
  if region.isEmpty then name else join region name

end PhpAudit.ClassName
