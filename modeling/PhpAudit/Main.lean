import PhpAudit.Cli.ConfigText
import PhpAudit.Cli.Program
import PhpAudit.Tree.OutlineText

/-!
# The command line program

Reads the part of the file system that a command is about, runs the command on it and carries out what
the run asks for. The grammar is a separate program: it leaves the outline of `page.php` in the file
`page.php.outline` beside it.
-/

namespace PhpAudit.Main

/-- The header that precedes a scan. -/
def header : String :=
  let blank := "    │                                      │\n"
  let edge := String.ofList (List.replicate 38 '─')
  "\n    ╭" ++ edge ++ "╮\n" ++ blank ++
    "    │        ROOTCAUSE  PHP  SCANNER       │\n" ++ blank ++
    "    │     Security analysis for PHP        │\n" ++
    "    │     and Laravel projects             │\n" ++
    "    │     Version: " ++ Program.version ++
    String.ofList (List.replicate (24 - Program.version.length) ' ') ++ "│\n" ++ blank ++
    "    ╰" ++ edge ++ "╯\n"

/-- How many levels of directories are read. -/
def maxLevels : Nat := 128

/-- Reads the content of a file. -/
def readContent (path : String) : IO Content := do
  let bytes ← IO.FS.readBinFile path
  return ⟨bytes.size, String.fromUTF8? bytes⟩

/-- Adds a file or directory and all below it to a tree. What cannot be read is left out. -/
def snapshot : Nat → FileTree → String → IO FileTree
  | 0, t, _ => return t
  | levels + 1, t, path => do
    try
      let real ← IO.FS.realPath path
      if ← real.isDir then
        let mut t := (t.makeDirs real.toString).toOption.getD t
        for entry in ← real.readDir do
          let inner := Path.join real.toString entry.fileName
          let target ← IO.FS.realPath inner
          if target.toString = inner then t ← snapshot levels t inner
          else t := (t.place inner (.link target.toString)).toOption.getD t
        return t
      else
        return (t.place real.toString (.file (← readContent path))).toOption.getD t
    catch _ => return t

/-- The outlines beside the files of a tree, by the text they belong to. -/
def outlines (t : FileTree) (paths : List String) : List (String × Option Outline) :=
  paths.filterMap fun path =>
    match t.read path with
    | .ok source => some (source, ((t.read (path ++ ".outline")).toOption).bind Outline.ofText?)
    | .error _ => none

/-- The paths a command reads: what it scans and its configuration. -/
def inputs (home : Option String) : Command → List String
  | .scan args => [args.path, args.config.getD (Config.userFile home)]
  | .listRules config => [config.getD (Config.userFile home)]

/-- The file that a command writes its measurements to. -/
def metricsFile? : Command → Option String
  | .scan args => args.metrics.filter (· ≠ "-")
  | .listRules _ => none

/-- Adds the directory of a file that is to be written, if it exists. -/
def withParent (t : FileTree) (path : String) : IO FileTree := do
  try
    let parent ← IO.FS.realPath (Path.parentOf path)
    return if ← parent.isDir then (t.makeDirs parent.toString).toOption.getD t else t
  catch _ => return t

/-- Carries out a command and returns its exit code. The duration shown is the time spent on reading
the files. -/
def execute (command : Command) : IO UInt32 := do
  let started ← IO.monoMsNow
  let home ← IO.getEnv "HOME"
  let cwd ← IO.currentDir
  let empty : FileTree := { cwd := (FileTree.steps cwd.toString).filter (· ≠ ".") }
  let read ← (inputs home command).foldlM (snapshot maxLevels) empty
  let files ← (metricsFile? command).toList.foldlM withParent read
  let known := outlines files ((Walk.phpFiles files (fun _ => false) "/").toOption.getD [])
  let world : World :=
    { files := files, home := home, grammar := fun source => (known.lookup source).join,
      engine := .unlimited, reader := ConfigText.read, clock := fun _ _ => 0,
      duration := (← IO.monoMsNow) - started }
  let outcome := Program.run world command
  if outcome.banner then IO.eprintln header
  IO.print outcome.output
  IO.eprint outcome.notes
  if let some path := metricsFile? command then
    if outcome.error.isNone then
      IO.FS.writeFile path ((outcome.files.read path).toOption.getD "")
  if let some e := outcome.error then IO.eprintln ("Error: " ++ e.message)
  return outcome.code.toUInt32

/-- What is shown for a command line that is not run. -/
def usage : String :=
  "Usage: rootcause-php scan <PATH> [OPTIONS]\n       rootcause-php rules list [--config <CONFIG>]\n"

end PhpAudit.Main

open PhpAudit in
/-- The entry point of the program. -/
def main (words : List String) : IO UInt32 :=
  match Command.parse .unlimited words with
  | .ok command => Main.execute command
  | .error .versionAsked => do
    IO.print Program.versionText
    return 0
  | .error .helpAsked => do
    IO.print Main.usage
    return 0
  | .error e => do
    IO.eprint Main.usage
    return e.exitCode.toUInt32
