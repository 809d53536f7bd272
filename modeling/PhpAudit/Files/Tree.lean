import PhpAudit.Files.Path

/-!
# File trees

A file system is a finite tree of directories, files and symbolic links, with a working directory. A
path is resolved segment by segment; a link on the way is replaced by its target, at most as often as
an operating system allows. Names and paths are bounded in length and hold no null character. A file
is made in a directory that exists; `place` makes the directories on the way first.
-/

namespace PhpAudit

/-- What a file holds: its size in bytes, and its text if the bytes are valid UTF-8. -/
structure Content where
  size : Nat
  text : Option String
  deriving DecidableEq, Repr, Inhabited

/-- The content of a file that holds a text. -/
def Content.ofText (s : String) : Content := ⟨s.utf8ByteSize, some s⟩

/-- An entry of a directory. -/
inductive Entry where
  | file (content : Content)
  | link (target : String)
  | dir (entries : List (String × Entry))
  deriving Inhabited

/-- Why a file cannot be reached or read. -/
inductive FileError
  | notFound
  | notDirectory
  | isDirectory
  | alreadyExists
  | tooManyLinks
  | nameTooLong
  | nullInName
  | notUtf8
  deriving DecidableEq, Repr

/-- What is said about a file that cannot be reached or read. -/
def FileError.message : FileError → String
  | notFound => "No such file or directory (os error 2)"
  | notDirectory => "Not a directory (os error 20)"
  | isDirectory => "Is a directory (os error 21)"
  | alreadyExists => "File exists (os error 17)"
  | tooManyLinks => "Too many levels of symbolic links (os error 40)"
  | nameTooLong => "File name too long (os error 36)"
  | nullInName => "file name contained an unexpected NUL byte"
  | notUtf8 => "stream did not contain valid UTF-8"

namespace Entry

/-- The entry of the given name in a directory. -/
def child? (e : Entry) (name : String) : Option Entry :=
  match e with
  | dir entries => entries.lookup name
  | _ => none

/-- The entry behind a list of names, links not followed. -/
def get? : Entry → List String → Option Entry
  | e, [] => some e
  | e, name :: names => (e.child? name).bind (get? · names)
termination_by structural _ names => names

/-- Whether an entry is a directory. -/
def isDir : Entry → Bool
  | dir _ => true
  | _ => false

/-- Changes the entry of the given name, adding an empty directory first if there is none. -/
def alter (name : String) (change : Entry → Entry) : List (String × Entry) → List (String × Entry)
  | [] => [(name, change (dir []))]
  | (n, e) :: entries =>
    if n = name then (n, change e) :: entries else (n, e) :: alter name change entries

/-- Puts an entry behind a list of names, with the directories on the way. -/
def insert (new : Entry) : List String → Entry → Entry
  | [], _ => new
  | name :: names, dir entries => dir (alter name (insert new names) entries)
  | name :: names, _ => dir [(name, insert new names (dir []))]

mutual

/-- The number of levels of an entry. -/
def height : Entry → Nat
  | dir entries => heightOfAll entries + 1
  | _ => 1

/-- The largest number of levels of the entries of a directory. -/
def heightOfAll : List (String × Entry) → Nat
  | [] => 0
  | (_, e) :: entries => max (height e) (heightOfAll entries)

end

/-- Inserts an entry into a list that is ordered by name. -/
def insertByName (entry : String × Entry) : List (String × Entry) → List (String × Entry)
  | [] => [entry]
  | e :: entries =>
    if entry.1 < e.1 then entry :: e :: entries else e :: insertByName entry entries

/-- The entries of a directory in the order of their names. -/
def sortedEntries : Entry → List (String × Entry)
  | dir entries => entries.foldr insertByName []
  | _ => []

end Entry

/-- A file system and the directory that relative paths start from. -/
structure FileTree where
  root : Entry := .dir []
  cwd : List String := []
  deriving Inhabited

namespace FileTree

/-- The segments to be walked for a path. An empty one, as behind a trailing slash, asks for a
directory and stays where it is. -/
def steps (path : String) : List String :=
  (Text.splitAt '/' path).map fun s => if s.isEmpty then "." else s

/-- How many links are followed on the way to a file. -/
def maxLinks : Nat := 40

/-- The bytes that a name may have. -/
def maxNameBytes : Nat := 255

/-- The bytes that a path may have. -/
def maxPathBytes : Nat := 4095

/-- What to do at the end of a path: whether to follow a link there, and whether its last name may be
missing, as when a file is about to be made. -/
structure Mode where
  followLast : Bool
  mayBeNew : Bool

/-- The way from an entry up to the root, each entry with its name, the root itself left out. -/
abbrev Trail := List (String × Entry)

/-- The entry at which a way up to the root starts. -/
def top (root : Entry) : Trail → Entry
  | [] => root
  | (_, e) :: _ => e

/-- The way up to the root from the entry behind a list of names, as far as there are entries. -/
def trailOf (root : Entry) (names : List String) : Trail :=
  names.foldl (fun trail name =>
    match (top root trail).child? name with
    | some e => (name, e) :: trail
    | none => trail) []

/-- Where a path leads to: an entry, or a name in a directory that has no such entry yet. -/
structure Spot where
  trail : Trail
  new : Option String := none

/-- The names from the root to a spot. -/
def Spot.names (spot : Spot) : List String :=
  (spot.trail.map (·.1)).reverse ++ spot.new.toList

/-- The entry at a spot. -/
def Spot.entry? (root : Entry) (spot : Spot) : Option Entry :=
  if spot.new.isSome then none else some (top root spot.trail)

/-- Walks the segments of a path from the entry at the start of `trail`, and hands over to `jump` at a
link. -/
def walk (root : Entry) (mode : Mode) (jump : Trail → List String → Except FileError Spot)
    (trail : Trail) : List String → Except FileError Spot
  | [] => .ok ⟨trail, none⟩
  | name :: rest =>
    if !(top root trail).isDir then .error .notDirectory
    else if name = "." then walk root mode jump trail rest
    else if name = ".." then walk root mode jump trail.tail rest
    else if maxNameBytes < name.utf8ByteSize then .error .nameTooLong
    else
      match (top root trail).child? name with
      | none => if mode.mayBeNew && rest.isEmpty then .ok ⟨trail, some name⟩ else .error .notFound
      | some (.link target) =>
        if rest.isEmpty && !mode.followLast then .ok ⟨(name, .link target) :: trail, none⟩
        else jump (if Path.isAbsolute target then [] else trail) (steps target ++ rest)
      | some e => walk root mode jump ((name, e) :: trail) rest

/-- Walks a path with a bound on the number of links. -/
def walkLinks (root : Entry) (mode : Mode) : Nat → Trail → List String → Except FileError Spot
  | 0, _, _ => .error .tooManyLinks
  | n + 1, trail, ahead => walk root mode (walkLinks root mode n) trail ahead

/-- The directory that a path starts from. -/
def startOf (t : FileTree) (path : String) : List String :=
  if Path.isAbsolute path then [] else t.cwd

/-- Where a path of any length leads to, links resolved. -/
def locate (t : FileTree) (mode : Mode) (path : String) : Except FileError Spot :=
  if path.toList.contains '\x00' then .error .nullInName
  else if path.isEmpty then .error .notFound
  else walkLinks t.root mode (maxLinks + 1) (trailOf t.root (t.startOf path)) (steps path)

/-- Where a path leads to, links resolved. -/
def resolve (t : FileTree) (mode : Mode) (path : String) : Except FileError Spot :=
  if maxPathBytes < path.utf8ByteSize && !path.toList.contains '\x00' then .error .nameTooLong
  else t.locate mode path

/-- The entry at a path, a link at its end resolved or not. -/
def find (t : FileTree) (follow : Bool) (path : String) : Except FileError Entry := do
  let spot ← t.resolve ⟨follow, false⟩ path
  return top t.root spot.trail

/-- The absolute path of a list of names. -/
def absolute (names : List String) : String :=
  if names.isEmpty then "/" else String.join (names.map ("/" ++ ·))

/-- The absolute path of the file at a path, without links. The path is taken one segment at a time and
may have any length. -/
def canonical (t : FileTree) (path : String) : Except FileError String :=
  (t.locate ⟨true, false⟩ path).map (absolute ·.names)

/-- Whether there is a file or directory at a path. -/
def exists? (t : FileTree) (path : String) : Bool :=
  (t.find true path).isOk

/-- The text of the file at a path. -/
def read (t : FileTree) (path : String) : Except FileError String := do
  match ← t.find true path with
  | .file content =>
    match content.text with
    | some s => return s
    | none => throw .notUtf8
  | _ => throw .isDirectory

/-- The size of the regular file at a path. -/
def fileSize? (t : FileTree) (path : String) : Option Nat :=
  match t.find true path with
  | .ok (.file content) => some content.size
  | _ => none

/-! ## Making files -/

/-- Makes the directories that are missing on the way from `done`. A link on the way has to lead to a
directory. -/
def makeDirsFrom (root : Entry) (done : List String) : List String → Except FileError Entry
  | [] => .ok root
  | name :: rest =>
    if name = "." then makeDirsFrom root done rest
    else if name = ".." then makeDirsFrom root done.dropLast rest
    else
      match root.get? (done ++ [name]) with
      | none => makeDirsFrom (Entry.insert (.dir []) (done ++ [name]) root) (done ++ [name]) rest
      | some _ =>
        match walkLinks root ⟨true, false⟩ (maxLinks + 1) (trailOf root done) [name, "."] with
        | .ok spot => makeDirsFrom root spot.names rest
        | .error e => .error e

/-- Makes a directory at a path, with the directories on the way, unless there is one. -/
def makeDirs (t : FileTree) (path : String) : Except FileError FileTree :=
  (makeDirsFrom t.root (t.startOf path) (steps path)).map fun root => { t with root := root }

/-- Puts a file at a path. The directory has to exist; a link at the end of the path is followed. -/
def putFile (t : FileTree) (path : String) (content : Content) : Except FileError FileTree := do
  let spot ← t.resolve ⟨true, true⟩ path
  match spot.entry? t.root with
  | some (.dir _) => throw .isDirectory
  | _ => return { t with root := Entry.insert (.file content) spot.names t.root }

/-- Puts a link at a path where there is nothing yet. -/
def putLink (t : FileTree) (path target : String) : Except FileError FileTree := do
  let spot ← t.resolve ⟨false, true⟩ path
  match spot.entry? t.root with
  | some _ => throw .alreadyExists
  | none => return { t with root := Entry.insert (.link target) spot.names t.root }

/-- Puts an entry at a path together with the directories on the way. -/
def place (t : FileTree) (path : String) (entry : Entry) : Except FileError FileTree :=
  match entry with
  | .dir _ => t.makeDirs path
  | .file content => (t.makeDirs (Path.parentOf path)).bind (·.putFile path content)
  | .link target => (t.makeDirs (Path.parentOf path)).bind (·.putLink path target)

/-- Writes a text to the file at a path, whose directory has to exist. -/
def write (t : FileTree) (path text : String) : Except FileError FileTree :=
  t.putFile path (.ofText text)

end FileTree

end PhpAudit
