import Forwarder.ClassFile
import Forwarder.Cursor
import Forwarder.Text.Hex
import Forwarder.Text.Utf8

/-!
# Reading class files

`ClassFile.decode` reads the bytes of a class file. The constant pool comes first; names are looked
up in it while the rest is read. Fields are skipped, and bytes behind the class are not looked at.
-/

namespace Forwarder

namespace ClassFile

/-- Why bytes are no class file. -/
inductive FormatError where
  /-- The bytes end too early. -/
  | truncated (fault : Cursor.Fault)
  /-- The bytes do not begin as a class file does. -/
  | badMagic (magic : Nat)
  /-- No text constant has this index. -/
  | expectedUtf8 (index : Int)
  /-- No class constant has this index. -/
  | expectedClass (index : Int)
  /-- No constant has this tag. -/
  | unknownTag (tag : Nat) (index : Nat)
  deriving Repr, DecidableEq

/-- The text that reports an error. -/
def FormatError.message : FormatError → String
  | truncated fault => s!"Truncated class file: {fault.message}"
  | badMagic magic => s!"Invalid class file magic: 0x{Hex.ofNat magic}"
  | expectedUtf8 index => s!"Expected UTF8 at index {index}"
  | expectedClass index => s!"Expected CLASS at index {index}"
  | unknownTag tag index => s!"Unknown constant pool tag {tag} at index {index}"

/-- A reader of a part of a class file. -/
abbrev Part := Cursor.Reader FormatError

instance : MonadLift (Cursor.Reader Cursor.Fault) Part where
  monadLift r := r.mapFault .truncated

/-- The number that a class file begins with. -/
def magic : Nat := 0xCAFEBABE

/-! ## The constant pool -/

/-- The text of a text constant. -/
def utf8 (pool : ConstantPool) (index : Int) : Except FormatError String :=
  match pool.entry index with
  | .ok (.utf8 s) => .ok s
  | _ => .error (.expectedUtf8 index)

/-- The name of a class constant; index 0 stands for no class. -/
def className (pool : ConstantPool) (index : Int) : Except FormatError (Option String) :=
  if index = 0 then .ok none
  else
    match pool.entry index with
    | .ok (.classRef name) => (utf8 pool name).map some
    | _ => .error (.expectedClass index)

/-- The constant of a tag at the cursor; `index` is the slot that it will take. -/
def readConstant (index tag : Nat) : Part Constant := do
  match Tag.ofNumber? tag with
  | some .utf8 =>
    let length ← Cursor.u2
    return .utf8 (Utf8.decode (← Cursor.take length))
  | some .integer => return .integer (← Cursor.i4)
  | some .float => return .float (UInt32.ofNat (← Cursor.u4))
  | some .long => return .long (← Cursor.i8)
  | some .double => return .double (UInt64.ofNat (← Cursor.unsigned 8))
  | some .classRef => return .classRef (← Cursor.u2)
  | some .string => return .string (← Cursor.u2)
  | some .methodType => return .methodType (← Cursor.u2)
  | some .moduleRef => return .moduleRef (← Cursor.u2)
  | some .packageRef => return .packageRef (← Cursor.u2)
  | some (.member kind) => return .member kind (← Cursor.u2) (← Cursor.u2)
  | some .nameAndType => return .nameAndType (← Cursor.u2) (← Cursor.u2)
  | some .dynamic => return .dynamic (← Cursor.u2) (← Cursor.u2)
  | some .invokeDynamic => return .invokeDynamic (← Cursor.u2) (← Cursor.u2)
  | some .methodHandle => return .methodHandle (← Cursor.u1) (← Cursor.u2)
  | none => throw (.unknownTag tag index)

/-- The constants that fill the slots up to `count`, behind the slots already filled. An eight-byte
number leaves the slot behind it empty. -/
def readConstants (count : Nat) (slots : Array (Option Constant)) :
    Part (Array (Option Constant)) := do
  if slots.size < count then
    let tag ← Cursor.u1
    let constant ← readConstant slots.size tag
    if constant.width = 2 then readConstants count ((slots.push (some constant)).push none)
    else readConstants count (slots.push (some constant))
  else return slots
termination_by count - slots.size
decreasing_by all_goals simp only [Array.size_push]; omega

/-- The constant pool at the cursor. -/
def readPool : Part ConstantPool := do
  let count ← Cursor.u2
  return ⟨← readConstants count #[none]⟩

/-! ## Attributes and methods -/

/-- Repeats a reader and lists what it reads. -/
def times {α : Type} (r : Part α) : Nat → Part (List α)
  | 0 => return []
  | n + 1 => do
    let a ← r
    return a :: (← times r n)

/-- The attribute at the cursor. -/
def readAttribute (pool : ConstantPool) : Part (String × Bytes) := do
  let name ← utf8 pool (← Cursor.u2)
  let length ← Cursor.u4
  return (name, ← Cursor.take length)

/-- The attributes at the cursor. -/
def readAttributes (pool : ConstantPool) : Part Attributes := do
  let count ← Cursor.u2
  let read ← times (readAttribute pool) count
  return read.foldl (fun attributes (name, data) => attributes.insert name data) .empty

/-- The entry of a line number table at the cursor. -/
def readLine : Part LineEntry := do
  return ⟨← Cursor.u2, ← Cursor.u2⟩

/-- The line number table at the cursor. -/
def readLines : Part (List LineEntry) := do
  times readLine (← Cursor.u2)

/-- Runs a reader over the bytes of an attribute; bytes that it leaves over do not matter. -/
def within {α : Type} (data : Bytes) (r : Part α) : Except FormatError α :=
  (r (.ofBytes data)).map Prod.fst

/-- The name of the attribute that maps offsets to source lines. -/
def lineTableName : String := "LineNumberTable"

/-- The lines that the attribute at the cursor, one of a method's code, adds to its table. -/
def readCodeAttribute (pool : ConstantPool) : Part (List LineEntry) := do
  let (name, data) ← readAttribute pool
  if name = lineTableName then within data readLines else return []

/-- The code at the cursor, with the lines of all its line number tables in one sorted table. -/
def readCode (pool : ConstantPool) : Part Code := do
  let maxStack ← Cursor.u2
  let maxLocals ← Cursor.u2
  let length ← Cursor.u4
  let bytes ← Cursor.take length
  let handlers ← Cursor.u2
  Cursor.skip (8 * handlers)
  let count ← Cursor.u2
  let tables ← times (readCodeAttribute pool) count
  return ⟨maxStack, maxLocals, bytes, tables.flatten.mergeSort LineEntry.ble⟩

/-- The name of the attribute that holds a method's code. -/
def codeName : String := "Code"

/-- The method at the cursor. -/
def readMethod (pool : ConstantPool) : Part Method := do
  let accessFlags ← Cursor.u2
  let name ← Cursor.u2
  let descriptor ← Cursor.u2
  let attributes ← readAttributes pool
  let name ← utf8 pool name
  let descriptor ← utf8 pool descriptor
  let code ← match attributes.find? codeName with
    | some data => some <$> within data (readCode pool)
    | none => pure none
  return ⟨accessFlags, name, descriptor, attributes, code⟩

/-- Skips the field at the cursor; its attributes must be readable. -/
def skipField (pool : ConstantPool) : Part Unit := do
  Cursor.skip 6
  let _ ← readAttributes pool

/-! ## The class -/

/-- The name of the attribute that names the source file. -/
def sourceFileName : String := "SourceFile"

/-- The source file that a class's attributes name. -/
def sourceFileOf (pool : ConstantPool) (attributes : Attributes) :
    Except FormatError (Option String) := do
  match attributes.find? sourceFileName with
  | some data =>
    let index ← within data Cursor.u2
    return some (← utf8 pool index)
  | none => return none

/-- The name of the class constant whose index is at the cursor. -/
def readClassName (pool : ConstantPool) : Part (Option String) := do
  className pool (← Cursor.u2)

/-- The class at the cursor. -/
def read : Part ClassFile := do
  let found ← Cursor.u4
  if found ≠ magic then throw (.badMagic found)
  let minor ← Cursor.u2
  let major ← Cursor.u2
  let pool ← readPool
  let accessFlags ← Cursor.u2
  let name ← readClassName pool
  let superName ← readClassName pool
  let interfaces ← times (readClassName pool) (← Cursor.u2)
  let _ ← times (skipField pool) (← Cursor.u2)
  let methods ← times (readMethod pool) (← Cursor.u2)
  let attributes ← readAttributes pool
  let sourceFile ← sourceFileOf pool attributes
  return {
    major, minor, accessFlags, name, superName, interfaces, methods, pool, attributes, sourceFile }

/-- The class that the bytes of a class file hold. -/
def decode (data : Bytes) : Except FormatError ClassFile := within data read

end ClassFile

end Forwarder
