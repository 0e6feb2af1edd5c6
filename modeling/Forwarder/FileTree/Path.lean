/-!
# Paths

A `Path` is a text read as the names of the directories that lead to a file. Empty names and single
dots mean nothing and are left out; `Path.toString` writes what is left.
-/

namespace Forwarder

/-- The slashes at the front of a path, and its parts. -/
structure Path where
  root : String
  parts : List String
  deriving Repr, DecidableEq

namespace Path

/-- The root of a text: two slashes at its front are another root than one or more than two. -/
def rootOf (text : String) : String :=
  match text.toList.takeWhile (· = '/') with
  | [] => ""
  | ['/', '/'] => "//"
  | _ => "/"

/-- The path that a text names. -/
def parse (text : String) : Path :=
  ⟨rootOf text, (text.splitOn "/").filter fun part => part ≠ "" && part ≠ "."⟩

/-- The text of a path; the path without parts is a dot. -/
protected def toString (p : Path) : String :=
  match p.root, p.parts with
  | "", [] => "."
  | root, parts => root ++ "/".intercalate parts

/-- The last part of a path. -/
def name (p : Path) : String := p.parts.getLast?.getD ""

/-- A path with further parts. -/
def append (p : Path) (parts : List String) : Path := { p with parts := p.parts ++ parts }

/-- The end of a name from its last dot on, unless the dot is its first or last character. -/
def suffixOf (name : String) : String :=
  let extension := name.toList.reverse.takeWhile (· ≠ '.')
  let stem := (name.toList.reverse.dropWhile (· ≠ '.')).drop 1
  if extension.isEmpty || stem.isEmpty then "" else String.ofList ('.' :: extension.reverse)

/-- The suffix of a path's last part. -/
def suffix (p : Path) : String := suffixOf p.name

end Path

end Forwarder
