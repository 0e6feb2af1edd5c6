import Forwarder.ClassFile
import Forwarder.Text.Json

/-!
# Diagnostics

A `Diagnostic` marks one dynamic call whose lambda could be a method reference. It has a one-line
text and a JSON object; a list of diagnostics is written as lines or as a JSON array.
-/

namespace Forwarder

/-- How urgent a diagnostic is. -/
inductive Priority where
  | high
  | normal
  | low
  deriving Repr, DecidableEq

/-- The name of a priority in reports. -/
def Priority.name : Priority → String
  | high => "HIGH"
  | normal => "NORMAL"
  | low => "LOW"

/-- The priority of a number, if there is one. -/
def Priority.ofNumber? : Int → Option Priority
  | 1 => some .high
  | 2 => some .normal
  | 3 => some .low
  | _ => none

/-- One finding: a dynamic call in a method of a class, and the lambda body that it links to. -/
structure Diagnostic where
  priority : Priority
  className : String
  methodName : String
  methodDescriptor : String
  pc : Int
  line : Option Int
  sourceFile : Option String
  target : Option String
  deriving Repr, DecidableEq

namespace Diagnostic

/-- The code by which reports name this kind of finding. -/
def code : String := "FII_USE_METHOD_HANDLE"

/-- What is wrong and what to do about it. -/
def message (d : Diagnostic) : String :=
  let target := d.target.getD "None"
  s!"lambda {target} only calls a zero-argument method; use a method reference"

/-- The file that a finding is in: the source file if it is known and has a name, else the class
file. -/
def file (d : Diagnostic) : String :=
  match d.sourceFile with
  | none => d.className ++ ".class"
  | some name => if name.isEmpty then d.className ++ ".class" else name

/-- The file and the line, or the file and the offset where no line is known. -/
def location (d : Diagnostic) : String :=
  match d.line with
  | some line => s!"{d.file}:{line}"
  | none => s!"{d.file}:pc {d.pc}"

/-- The one-line text of a finding. -/
def text (d : Diagnostic) : String :=
  let owner := dotted d.className
  s!"{d.location}: {code} {owner}.{d.methodName}{d.methodDescriptor}: {d.message}"

/-- The JSON object of a finding. -/
def toJson (d : Diagnostic) : Json := .object [
  ("bug_type", .string code),
  ("priority", .string d.priority.name),
  ("class_name", .string (dotted d.className)),
  ("method_name", .string d.methodName),
  ("method_descriptor", .string d.methodDescriptor),
  ("pc", .number d.pc),
  ("line", .ofInt? d.line),
  ("source_file", .ofString? d.sourceFile),
  ("target", .ofString? d.target)]

/-- The texts of some findings, a line each. -/
def lines (ds : List Diagnostic) : String := "\n".intercalate (ds.map text)

/-- Some findings as a JSON array. -/
def json (layout : Json.Layout) (ds : List Diagnostic) : String :=
  (Json.array (ds.map toJson)).render layout

end Diagnostic

end Forwarder
