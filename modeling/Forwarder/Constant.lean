/-!
# Constants

The constants of a class file's pool, with the numbers by which they refer to one another, and the
kinds of method handles. `Constant.ofOperands` finds the constant that a tag and its operands spell;
what none of the format's constants spells is kept as `Constant.other`.
-/

namespace Forwarder

/-- The kinds of members that a constant can refer to. -/
inductive MemberKind where
  | field
  | method
  | interfaceMethod
  deriving DecidableEq, Repr, Hashable

/-- The tags of the class file format. -/
inductive Tag where
  | utf8
  | integer
  | float
  | long
  | double
  | classRef
  | string
  | member (kind : MemberKind)
  | nameAndType
  | methodHandle
  | methodType
  | dynamic
  | invokeDynamic
  | moduleRef
  | packageRef
  deriving DecidableEq, Repr

namespace Tag

/-- The number that stands for a tag in a class file. -/
def number : Tag → Nat
  | utf8 => 1
  | integer => 3
  | float => 4
  | long => 5
  | double => 6
  | classRef => 7
  | string => 8
  | member .field => 9
  | member .method => 10
  | member .interfaceMethod => 11
  | nameAndType => 12
  | methodHandle => 15
  | methodType => 16
  | dynamic => 17
  | invokeDynamic => 18
  | moduleRef => 19
  | packageRef => 20

/-- The name of a tag in messages. -/
def name : Tag → String
  | utf8 => "UTF8"
  | integer => "INTEGER"
  | float => "FLOAT"
  | long => "LONG"
  | double => "DOUBLE"
  | classRef => "CLASS"
  | string => "STRING"
  | member .field => "FIELDREF"
  | member .method => "METHODREF"
  | member .interfaceMethod => "INTERFACE_METHODREF"
  | nameAndType => "NAME_AND_TYPE"
  | methodHandle => "METHOD_HANDLE"
  | methodType => "METHOD_TYPE"
  | dynamic => "DYNAMIC"
  | invokeDynamic => "INVOKE_DYNAMIC"
  | moduleRef => "MODULE"
  | packageRef => "PACKAGE"

/-- Every tag, in the order of the numbers. -/
def all : List Tag :=
  [utf8, integer, float, long, double, classRef, string, member .field, member .method,
    member .interfaceMethod, nameAndType, methodHandle, methodType, dynamic, invokeDynamic,
    moduleRef, packageRef]

/-- The tag of a number, if there is one. -/
def ofNumber? (n : Int) : Option Tag := all.find? fun t => (t.number : Int) = n

/-- Every tag is that of its number. -/
@[simp] theorem ofNumber?_number (t : Tag) : ofNumber? t.number = some t := by
  rcases t with _ | _ | _ | _ | _ | _ | _ | kind | _ <;> first | rfl | (cases kind <;> rfl)

end Tag

/-- The kinds of method handles. -/
inductive HandleKind where
  | getField
  | getStatic
  | putField
  | putStatic
  | invokeVirtual
  | invokeStatic
  | invokeSpecial
  | newInvokeSpecial
  | invokeInterface
  deriving DecidableEq, Repr

namespace HandleKind

/-- The number that stands for a kind in a class file. -/
def number : HandleKind → Nat
  | getField => 1
  | getStatic => 2
  | putField => 3
  | putStatic => 4
  | invokeVirtual => 5
  | invokeStatic => 6
  | invokeSpecial => 7
  | newInvokeSpecial => 8
  | invokeInterface => 9

/-- The name of a kind in reports. -/
def name : HandleKind → String
  | getField => "GET_FIELD"
  | getStatic => "GET_STATIC"
  | putField => "PUT_FIELD"
  | putStatic => "PUT_STATIC"
  | invokeVirtual => "INVOKE_VIRTUAL"
  | invokeStatic => "INVOKE_STATIC"
  | invokeSpecial => "INVOKE_SPECIAL"
  | newInvokeSpecial => "NEW_INVOKE_SPECIAL"
  | invokeInterface => "INVOKE_INTERFACE"

/-- Every kind, in the order of the numbers. -/
def all : List HandleKind :=
  [getField, getStatic, putField, putStatic, invokeVirtual, invokeStatic, invokeSpecial,
    newInvokeSpecial, invokeInterface]

/-- The kind of a number, if there is one. -/
def ofNumber? (n : Int) : Option HandleKind := all.find? fun k => (k.number : Int) = n

/-- Every kind of handle is that of its number. -/
@[simp] theorem ofNumber?_number (k : HandleKind) : ofNumber? k.number = some k := by
  cases k <;> rfl

end HandleKind

/-- What follows the tag of a constant: a number or a text. -/
inductive Operand where
  | number (n : Int)
  | text (s : String)
  deriving DecidableEq, Repr, Hashable

/-- A constant. Numbers that name other constants are indices into the pool; they are not bounded
here, since a pool may be built before it is known to fit into a file. -/
inductive Constant where
  | utf8 (text : String)
  | integer (value : Int)
  /-- The bit pattern of a floating-point number of four bytes. -/
  | float (bits : UInt32)
  | long (value : Int)
  /-- The bit pattern of a floating-point number of eight bytes. -/
  | double (bits : UInt64)
  | classRef (name : Int)
  | string (text : Int)
  | member (kind : MemberKind) (owner nameAndType : Int)
  | nameAndType (name descriptor : Int)
  | methodHandle (kind reference : Int)
  | methodType (descriptor : Int)
  | dynamic (bootstrap nameAndType : Int)
  | invokeDynamic (bootstrap nameAndType : Int)
  | moduleRef (name : Int)
  | packageRef (name : Int)
  /-- A tag with operands that are none of the above. -/
  | other (tag : Int) (operands : List Operand)
  deriving DecidableEq, Repr, Hashable

namespace Constant

/-- The number of a constant's tag. -/
def tag : Constant → Int
  | utf8 _ => Tag.utf8.number
  | integer _ => Tag.integer.number
  | float _ => Tag.float.number
  | long _ => Tag.long.number
  | double _ => Tag.double.number
  | classRef _ => Tag.classRef.number
  | string _ => Tag.string.number
  | member kind _ _ => (Tag.member kind).number
  | nameAndType _ _ => Tag.nameAndType.number
  | methodHandle _ _ => Tag.methodHandle.number
  | methodType _ => Tag.methodType.number
  | dynamic _ _ => Tag.dynamic.number
  | invokeDynamic _ _ => Tag.invokeDynamic.number
  | moduleRef _ => Tag.moduleRef.number
  | packageRef _ => Tag.packageRef.number
  | other tag _ => tag

/-- The constant that a tag and its operands spell. -/
def ofOperands (tag : Int) (operands : List Operand) : Constant :=
  match Tag.ofNumber? tag, operands with
  | some .utf8, [.text s] => utf8 s
  | some .integer, [.number n] => integer n
  | some .long, [.number n] => long n
  | some .classRef, [.number i] => classRef i
  | some .string, [.number i] => string i
  | some (.member kind), [.number i, .number j] => member kind i j
  | some .nameAndType, [.number i, .number j] => nameAndType i j
  | some .methodHandle, [.number k, .number i] => methodHandle k i
  | some .methodType, [.number i] => methodType i
  | some .dynamic, [.number b, .number i] => dynamic b i
  | some .invokeDynamic, [.number b, .number i] => invokeDynamic b i
  | some .moduleRef, [.number i] => moduleRef i
  | some .packageRef, [.number i] => packageRef i
  | _, _ => other tag operands

/-- The number of slots that a constant takes in the pool: two for eight-byte numbers. -/
def width (c : Constant) : Nat :=
  if c.tag = Tag.long.number ∨ c.tag = Tag.double.number then 2 else 1

end Constant

end Forwarder
