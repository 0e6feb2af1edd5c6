/-!
# Method descriptors

A method descriptor lists the parameter types of a method in parentheses, followed by its return
type: `(ILjava/lang/String;)[J` takes an integer and a string and returns an array of long integers.
`MethodDescriptor` is what such a text means, `MethodDescriptor.toString` writes it and
`MethodDescriptor.parse?`, in `Forwarder.Descriptor.Parse`, reads it.
-/

namespace Forwarder

/-- A primitive type. -/
inductive BaseType where
  | byte
  | char
  | double
  | float
  | int
  | long
  | short
  | boolean
  deriving DecidableEq, Repr

/-- The letter that stands for a primitive type. -/
def BaseType.letter : BaseType → Char
  | byte => 'B'
  | char => 'C'
  | double => 'D'
  | float => 'F'
  | int => 'I'
  | long => 'J'
  | short => 'S'
  | boolean => 'Z'

/-- The primitive type that a letter stands for, if any. -/
def BaseType.ofLetter? : Char → Option BaseType
  | 'B' => some .byte
  | 'C' => some .char
  | 'D' => some .double
  | 'F' => some .float
  | 'I' => some .int
  | 'J' => some .long
  | 'S' => some .short
  | 'Z' => some .boolean
  | _ => none

/-- Every base type is that of its letter. -/
@[simp] theorem BaseType.ofLetter?_letter (t : BaseType) : ofLetter? t.letter = some t := by
  cases t <;> rfl

/-- A type of a field, a parameter or a result. -/
inductive FieldType where
  | base (type : BaseType)
  /-- The class or interface of a name. -/
  | object (name : List Char)
  | array (element : FieldType)
  deriving DecidableEq, Repr

namespace FieldType

/-- Whether a character may occur in a class name. -/
def isNameChar (c : Char) : Bool := c ≠ ';' && c ≠ '[' && c ≠ '.'

/-- The text of a type, character by character. -/
def chars : FieldType → List Char
  | base type => [type.letter]
  | object name => 'L' :: (name ++ [';'])
  | array element => '[' :: element.chars

/-- No type is spelled by an empty text. -/
theorem chars_ne_nil (t : FieldType) : t.chars ≠ [] := by
  cases t <;> simp [chars]

/-- The text of a type. -/
protected def toString (t : FieldType) : String := String.ofList t.chars

/-- Class names are not empty and hold only the characters that a class name may hold. -/
def WellFormed : FieldType → Prop
  | base _ => True
  | object name => name ≠ [] ∧ ∀ c ∈ name, isNameChar c
  | array element => element.WellFormed

end FieldType

/-- The parameter types and the return type of a method; no return type means `void`. -/
structure MethodDescriptor where
  parameters : List FieldType
  returnType : Option FieldType
  deriving DecidableEq, Repr

namespace MethodDescriptor

/-- The number of parameters. -/
def arity (d : MethodDescriptor) : Nat := d.parameters.length

/-- Whether a method returns nothing. -/
def isVoid (d : MethodDescriptor) : Bool := d.returnType.isNone

/-- The text of a return type, character by character. -/
def returnChars : Option FieldType → List Char
  | none => ['V']
  | some t => t.chars

/-- The text of a descriptor, character by character. -/
def chars (d : MethodDescriptor) : List Char :=
  '(' :: (d.parameters.flatMap FieldType.chars ++ ')' :: returnChars d.returnType)

/-- The text of a descriptor. -/
protected def toString (d : MethodDescriptor) : String := String.ofList d.chars

/-- All the types of a descriptor are well formed. -/
def WellFormed (d : MethodDescriptor) : Prop :=
  (∀ t ∈ d.parameters, t.WellFormed) ∧ ∀ t ∈ d.returnType, t.WellFormed

end MethodDescriptor

end Forwarder
