import Forwarder.Analysis
import Forwarder.FileTree

/-!
# Class paths

A class path lists class files, directories and archives. `ClassPath.Entry.ofPath` says which of them
a path is, `ClassPath.Entry.sources` lists the class files of an entry in a fixed order: those of a
directory by the parts of their paths, those of an archive by their names.
-/

namespace Forwarder.ClassPath

/-- An entry of a class path. -/
inductive Entry where
  | file (path : Path) (data : Bytes)
  | archive (path : Path) (members : List (String × Bytes))
  | directory (path : Path) (tree : FileTree)

/-- Why a path is no entry. -/
inductive Error where
  /-- The file is named as an archive but is none. -/
  | notArchive
  /-- It is neither a directory nor named as a class file or an archive. -/
  | invalid (path : Path)
  deriving Repr, DecidableEq

/-- The text that reports an error. -/
def Error.message : Error → String
  | notArchive => "File is not a zip file"
  | invalid path => s!"Invalid classpath entry: {path.toString}"

/-- Why the class files of an entry cannot be listed. -/
inductive ReadError where
  /-- A directory is named as a class file. -/
  | isDirectory
  deriving Repr, DecidableEq

/-- The suffixes of archives. -/
def archiveSuffixes : List String := [".jar", ".zip"]

/-- The entry at a path. -/
def Entry.ofPath (files : Files) (path : Path) : Except Error Entry :=
  let isArchive := archiveSuffixes.contains path.suffix
  let isClass := path.suffix = FileTree.classSuffix
  match files path with
  | some (.directory entries) => .ok (.directory path (.directory entries))
  | some (.archive members) =>
    if isArchive then .ok (.archive path members)
    else if isClass then .ok (.file path (FileTree.archiveMark members))
    else .error (.invalid path)
  | some (.file data) =>
    if isArchive then .error .notArchive
    else if isClass then .ok (.file path data)
    else .error (.invalid path)
  | none => .error (.invalid path)

/-- The bytes of the last member of a name. -/
def lastMember (members : List (String × Bytes)) (name : String) : Bytes :=
  (members.reverse.lookup name).getD []

/-- The class files of an entry. -/
def Entry.sources : Entry → Except ReadError (List Source)
  | file path data => .ok [⟨path.toString, data⟩]
  | archive path members =>
    let names := (members.map Prod.fst).mergeSort fun a b => !(b < a)
    .ok ((names.filter FileTree.isClassName).map fun name =>
      let archive := path.toString
      ⟨s!"{archive}!{name}", lastMember members name⟩)
  | directory path tree =>
    let found := (tree.classes []).mergeSort fun a b => !(b.1 < a.1)
    found.mapM fun (parts, tree) =>
      match tree.bytes? with
      | some data => .ok ⟨(path.append parts).toString, data⟩
      | none => .error .isDirectory

/-- The entries at some paths, up to the first that is none. -/
def entries (files : Files) (paths : List String) : Except Error (List Entry) :=
  paths.mapM fun path => Entry.ofPath files (.parse path)

/-- The class files of some entries, in their order. -/
def sources (entries : List Entry) : Except ReadError (List Source) :=
  (entries.mapM Entry.sources).map List.flatten

end Forwarder.ClassPath
