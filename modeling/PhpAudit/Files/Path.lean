import PhpAudit.Text.Blank
import PhpAudit.Text.Case

/-!
# Paths

Paths are texts with segments divided by slashes. This module takes them apart and tells the files
that hold PHP by the extension of their last segment.
-/

namespace PhpAudit.Path

/-- The segments of a path, without the empty ones that repeated slashes leave and without the dots
that stand for the directory itself. A dot that starts a relative path stays. -/
def segments (path : String) : List String :=
  match Text.splitAt '/' path with
  | [] => []
  | first :: rest =>
    let kept := rest.filter (fun s => !s.isEmpty && s != ".")
    if first.isEmpty then kept else first :: kept

/-- Whether a path starts at the root of the file system. -/
def isAbsolute (path : String) : Bool := Text.startsWith path "/"

/-- A path continued by a relative one. -/
def join (path rest : String) : String :=
  if isAbsolute rest then rest
  else if path.isEmpty || Text.endsWith path '/' then path ++ rest
  else path ++ "/" ++ rest

/-- Whether two paths have the same segments; repeated slashes and dots on the way make no
difference. -/
def same (a b : String) : Bool :=
  isAbsolute a == isAbsolute b && segments a == segments b

/-- The path in front of the last slash. -/
def parentOf (path : String) : String :=
  match (Text.splitAt '/' path).dropLast with
  | [] => "."
  | [""] => "/"
  | parts => String.intercalate "/" parts

/-- What follows the last dot of a file name. A name that only starts with a dot, and the name of the
directory above, have no extension. -/
def extensionOf? (name : String) : Option String :=
  if name = ".." then none
  else
    match name.toList.reverse.span (· != '.') with
    | (_, []) => none
    | (_, [_]) => none
    | (ext, _ :: _ :: _) => some (String.ofList ext.reverse)

/-- The extension of the last segment of a path. -/
def extension? (path : String) : Option String :=
  match (segments path).getLast? with
  | some "." => none
  | some name => extensionOf? name
  | none => none

/-- The extensions of PHP files. -/
def phpExtensions : List String := ["php", "phtml", "php5", "php7", "php8", "inc"]

/-- Whether a path names a PHP file. -/
def isPhp (path : String) : Bool :=
  match extension? path with
  | some ext => phpExtensions.contains (Text.lower ext)
  | none => false

end PhpAudit.Path
