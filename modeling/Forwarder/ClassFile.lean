import Forwarder.Bytes
import Forwarder.ConstantPool

/-!
# Class files

What the analysis knows of a class: its names, its constant pool, its methods with their code and
line numbers, and its attributes as raw bytes. A class file may leave its own name out.
-/

namespace Forwarder

/-- Attributes by name, in the order in which their names first occur. -/
structure Attributes where
  entries : List (String × Bytes)
  deriving Repr, DecidableEq

namespace Attributes

/-- No attributes. -/
def empty : Attributes := ⟨[]⟩

/-- The bytes of an attribute, if there is one of that name. -/
def find? (attributes : Attributes) (name : String) : Option Bytes :=
  attributes.entries.lookup name

/-- Replaces the bytes of a name in a list that has it, or appends them. -/
def insertInto (name : String) (data : Bytes) : List (String × Bytes) → List (String × Bytes)
  | [] => [(name, data)]
  | (n, d) :: rest =>
    if n = name then (name, data) :: rest else (n, d) :: insertInto name data rest

/-- Adds an attribute. A name that is there already keeps its place and takes the new bytes. -/
def insert (attributes : Attributes) (name : String) (data : Bytes) : Attributes :=
  ⟨insertInto name data attributes.entries⟩

end Attributes

/-- One entry of a line number table: the instructions from an offset on come from a line. -/
structure LineEntry where
  startPc : Int
  line : Int
  deriving Repr, DecidableEq

/-- Whether an entry stands before another one or equals it, by offset and then by line. -/
def LineEntry.ble (a b : LineEntry) : Bool :=
  a.startPc < b.startPc || (a.startPc == b.startPc && a.line ≤ b.line)

/-- The line of an offset: that of the last entry before the first one that starts behind it. -/
def lineOf (table : List LineEntry) (pc : Int) : Option Int :=
  (table.takeWhile fun e => e.startPc ≤ pc).getLast?.map LineEntry.line

/-- The code of a method, with its line number table sorted. -/
structure Code where
  maxStack : Nat
  maxLocals : Nat
  bytes : Bytes
  lines : List LineEntry
  deriving Repr, DecidableEq

/-- A method. -/
structure Method where
  accessFlags : Nat
  name : String
  descriptor : String
  attributes : Attributes
  code : Option Code
  deriving Repr, DecidableEq

namespace Method

/-- Whether the compiler made the method up. -/
def isSynthetic (m : Method) : Bool := m.accessFlags.testBit 12

/-- Whether the method has no receiver. -/
def isStatic (m : Method) : Bool := m.accessFlags.testBit 3

end Method

/-- A class. -/
structure ClassFile where
  major : Nat
  minor : Nat
  accessFlags : Nat
  name : Option String
  superName : Option String
  interfaces : List (Option String)
  methods : List Method
  pool : ConstantPool
  attributes : Attributes
  sourceFile : Option String
  deriving Repr, DecidableEq

/-- A class name with dots in place of slashes. -/
def dotted (name : String) : String :=
  String.ofList (name.toList.map fun c => if c = '/' then '.' else c)

end Forwarder
