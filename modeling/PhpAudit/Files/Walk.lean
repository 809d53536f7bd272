import PhpAudit.Files.Tree

/-!
# Walking a file tree

The regular files below a path, level by level and in the order of their names within a directory. What
`excluded` rejects is passed by with all that lies below, and links are not followed.
-/

namespace PhpAudit.Walk

/-- The regular files among entries. -/
def filesOf (entries : List (String × Entry)) : List String :=
  entries.filterMap fun
    | (path, .file _) => some path
    | _ => none

/-- The entries of the directories among entries, each with its path. -/
def nextLevel (entries : List (String × Entry)) : List (String × Entry) :=
  entries.flatMap fun (path, e) => e.sortedEntries.map fun (name, e) => (Path.join path name, e)

/-- The entries on a level and on the levels below it, each with its path. -/
def levels (excluded : String → Bool) : Nat → List (String × Entry) → List (String × Entry)
  | 0, _ => []
  | fuel + 1, entries =>
    let kept := entries.filter (fun p => !excluded p.1)
    kept ++ levels excluded fuel (nextLevel kept)

/-- Whether a path has more bytes than a path may have. -/
def isTooLong (path : String) : Bool := FileTree.maxPathBytes < path.utf8ByteSize

/-- The regular files at and below a path that is not a link. The walk fails if it reaches an entry
whose path is too long. -/
def files (t : FileTree) (excluded : String → Bool) (path : String) :
    Except FileError (List String) :=
  if excluded path then .ok []
  else do
    let entry ← t.find false path
    let reached := levels excluded entry.height [(path, entry)]
    if reached.any (fun p => isTooLong p.1) then throw .nameTooLong
    return filesOf reached

/-- The PHP files at and below a path. -/
def phpFiles (t : FileTree) (excluded : String → Bool) (path : String) :
    Except FileError (List String) :=
  (files t excluded path).map (·.filter Path.isPhp)

/-- The paths of a list up to and including the first one that is the same as `stop`. -/
def through (stop : String) : List String → List String
  | [] => []
  | path :: paths => if Path.same path stop then [path] else path :: through stop paths

end PhpAudit.Walk
