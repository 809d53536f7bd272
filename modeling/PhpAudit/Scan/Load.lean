import PhpAudit.Files.Tree
import PhpAudit.Tree.Naming

/-!
# Loading files

A path becomes a source file if it names a PHP file that can be read and has no syntax errors.
-/

namespace PhpAudit

/-- Why a PHP file cannot be loaded. -/
inductive LoadFault
  | unreadable (path : String) (cause : FileError)
  | malformed (fault : SyntaxFault)
  deriving DecidableEq, Repr

/-- What is said about a file that cannot be loaded. -/
def LoadFault.message : LoadFault → String
  | unreadable path cause => "Failed to read file: " ++ path ++ ": " ++ cause.message
  | malformed fault => fault.message

/-- Loads the file at a path; a path that names no PHP file gives nothing. Lines with the marker are
suppressed. -/
def SourceFile.load (t : FileTree) (grammar : Grammar) (marker : Option String) (path : String) :
    Except LoadFault (Option SourceFile) :=
  if Path.isPhp path then
    match t.read path with
    | .error cause => .error (.unreadable path cause)
    | .ok source =>
      match SourceFile.parse grammar path source with
      | .error fault => .error (.malformed fault)
      | .ok f =>
        .ok (some { f with suppressed := (marker.map (SourceFile.markedLines source)).getD [] })
  else .ok none

end PhpAudit
