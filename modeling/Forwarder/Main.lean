import Forwarder.Archive
import Forwarder.Program

/-!
# The executable

Loads what the command line names, runs the program on it, and prints what it gives.
-/

namespace Forwarder.Main

/-- A file as a tree: an archive if it is named and built as one. -/
def fileTree (path : Path) (data : Bytes) : FileTree :=
  if ClassPath.archiveSuffixes.contains path.suffix then
    match Archive.decode data with
    | some members => .archive members
    | none => .file data
  else .file data

/-- Loads what stands at a path. Of the files below a directory only class files are loaded. -/
partial def load (path : Path) : IO (Option FileTree) := do
  let name := path.toString
  try
    let real ← IO.FS.realPath name
    if ← real.isDir then
      let mut entries := []
      for entry in ← real.readDir do
        let child := path.append [entry.fileName]
        if FileTree.isClassName entry.fileName || (← entry.path.isDir) then
          if let some tree ← load child then
            entries := (entry.fileName, tree) :: entries
      return some (.directory entries)
    else if ← real.pathExists then
      return some (fileTree path (← IO.FS.readBinFile real).toList)
    else return none
  catch _ => return none

/-- The paths that a command line names. -/
def namedPaths (args : List String) : List String :=
  match CommandLine.Invocation.parse args with
  | .ok ⟨_, some (.analyse c)⟩ => c.paths
  | .ok ⟨_, some (.dump file)⟩ => [file]
  | _ => []

/-- How the program is called. -/
def usage : String :=
  "usage: forwarder [-h] [--debug] \x7banalyze,bootstrap\x7d ...\n\n" ++
  "Find lambdas in compiled classes that could be method references\n\n" ++
  "  analyze [-j N] [--format text|json] [--min-major N] [--fail-on-findings] [-q] path ...\n" ++
  "  bootstrap file\n"

end Forwarder.Main

open Forwarder in
/-- Runs the program on the files that its arguments name. -/
def main (args : List String) : IO UInt32 := do
  let paths := (Main.namedPaths args).map Path.parse
  let loaded ← paths.mapM fun path => do return (path, ← Main.load path)
  match Program.run (fun path => (loaded.lookup path).join) args with
  | .stopped .help =>
    IO.print Main.usage
    return 0
  | .stopped .usage =>
    IO.eprint Main.usage
    return 2
  | .noCommand =>
    IO.print Main.usage
    return 1
  | .finished r =>
    IO.eprint r.stderr
    IO.print r.stdout
    return UInt32.ofNat r.status
  | .crashed .isDirectory => throw (IO.userError "a directory is named as a class file")
  | .crashed (.visit .unnamed) => throw (IO.userError "a class has no name")
