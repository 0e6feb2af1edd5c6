import Forwarder.Bytes
import Forwarder.FileTree.Path

/-!
# Trees of files

A `FileTree` is a file, an archive or a directory. Archives are files of which the members are known.
`FileTree.find?` follows a path, `FileTree.classes` lists what lies below a directory and is named as
a class file.
-/

namespace Forwarder

/-- A file, an archive or a directory. -/
inductive FileTree where
  | file (data : Bytes)
  /-- The members of an archive in their order; a name may occur more than once. -/
  | archive (members : List (String × Bytes))
  | directory (entries : List (String × FileTree))
  deriving Repr

namespace FileTree

/-- A directory without entries. -/
def empty : FileTree := directory []

/-- Replaces the entry of a name, or adds it. -/
def setEntry (name : String) (tree : FileTree) :
    List (String × FileTree) → List (String × FileTree)
  | [] => [(name, tree)]
  | (n, t) :: rest => if n = name then (name, tree) :: rest else (n, t) :: setEntry name tree rest

/-- The entries of a directory. -/
def entries : FileTree → List (String × FileTree)
  | directory entries => entries
  | _ => []

/-- Puts a tree at the end of some names and makes the directories that lead to it. -/
def insert (tree : FileTree) : List String → FileTree → FileTree
  | [], node => node
  | name :: names, node =>
    let child := (tree.entries.lookup name).getD empty
    directory (setEntry name (child.insert names node) tree.entries)

/-- What stands at the end of some names, seen from a tree with the directories above it. Two dots
lead to the directory above, of which nothing is known at the top. -/
def follow : (above : List FileTree) → FileTree → List String → Option FileTree
  | _, tree, [] => some tree
  | above, directory entries, name :: names =>
    if name = ".." then
      match above with
      | [] => none
      | parent :: above => follow above parent names
    else
      match entries.lookup name with
      | none => none
      | some child => follow (directory entries :: above) child names
  | _, _, _ :: _ => none

/-- What stands at a path below a directory. Nothing is known of what does not lie below it. -/
def find? (tree : FileTree) (path : Path) : Option FileTree :=
  if path.root = "" then follow [] tree path.parts else none

/-- Makes the directory at a path, and those that lead to it, unless it is there. -/
def makeDirectory (tree : FileTree) (names : List String) : FileTree :=
  match follow [] tree names with
  | some (directory _) => tree
  | _ => tree.insert names empty

/-- The bytes at the front of an archive: the mark of its first member, or of its directory if it
has none. -/
def archiveMark : List (String × Bytes) → Bytes
  | [] => [0x50, 0x4B, 0x05, 0x06]
  | _ => [0x50, 0x4B, 0x03, 0x04]

/-- The bytes of a file; of an archive, those at its front. -/
def bytes? : FileTree → Option Bytes
  | file data => some data
  | archive members => some (archiveMark members)
  | directory _ => none

/-- The suffix of class files. -/
def classSuffix : String := ".class"

/-- Whether a name ends as those of class files do. -/
def isClassName (name : String) : Bool := name.endsWith classSuffix

mutual

/-- What is named as a class file below a tree, with the names that lead there. -/
def classes (above : List String) : FileTree → List (List String × FileTree)
  | directory entries => classesOf above entries
  | _ => []

/-- What is named as a class file among some entries and below them. -/
def classesOf (above : List String) : List (String × FileTree) → List (List String × FileTree)
  | [] => []
  | (name, tree) :: rest =>
    let here := if isClassName name then [(above ++ [name], tree)] else []
    here ++ classes (above ++ [name]) tree ++ classesOf above rest

end

end FileTree

/-- A view of the files of a machine: what stands at a path. -/
abbrev Files := Path → Option FileTree

end Forwarder
