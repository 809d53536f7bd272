import PhpAudit.Files.Glob
import PhpAudit.Files.Tree
import PhpAudit.Text.Lines

/-!
# What is left out of a scan

Directories of dependencies, the entries of the ignore files at the root of a project, and files that
are too large.
-/

namespace PhpAudit.Exclusion

/-- Directories that are not worth scanning. -/
def defaultPatterns : List String := ["**/vendor/**", "**/node_modules/**", "**/.git/**"]

/-- The valid ones among patterns. -/
def validOnly (engine : Glob.Engine) (patterns : List String) : List Glob :=
  patterns.filterMap fun p => (Glob.parseExclude engine p).toOption

/-- The patterns for directories that are not worth scanning. -/
def defaults (engine : Glob.Engine) : List Glob := validOnly engine defaultPatterns

/-- The files at the root of a project that list what to ignore. -/
def ignoreFiles : List String := [".gitignore", ".sastignore"]

/-- The pattern that a line of an ignore file stands for. Blank lines, comments and negations stand
for none; a pattern holds at any depth. -/
def ignorePattern? (line : String) : Option String :=
  let entry := Text.trim line
  if entry.isEmpty || Text.startsWith entry "#" || Text.startsWith entry "!" then none
  else
    let pattern := Text.stripStart '/' entry
    some (if Text.startsWith pattern "**/" then pattern else "**/" ++ pattern)

/-- The patterns in the text of an ignore file; invalid ones are passed over. -/
def ofIgnoreText (engine : Glob.Engine) (text : String) : List Glob :=
  validOnly engine ((Text.lines text).filterMap ignorePattern?)

/-- The patterns in the ignore files of a directory. -/
def ofIgnoreFiles (engine : Glob.Engine) (t : FileTree) (root : String) : List Glob :=
  ignoreFiles.flatMap fun name =>
    match t.read (Path.join root name) with
    | .ok text => ofIgnoreText engine text
    | .error _ => []

/-- Whether a path is left out: a pattern matches it, or it is a file larger than `maxSize` bytes,
where zero stands for no limit. -/
def excludes (t : FileTree) (patterns : List Glob) (maxSize : Nat) (path : String) : Bool :=
  let text := Text.replace '\\' "/" path
  patterns.any (fun p => p.matchesText text) ||
    (maxSize > 0 && (t.fileSize? path).any (fun size => size > maxSize))

end PhpAudit.Exclusion
