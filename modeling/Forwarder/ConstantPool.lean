import Forwarder.Constant

/-!
# Looking up constants

A `ConstantPool` is what the indices of a class file refer to. Slot 0 is never used, and the slot
behind an eight-byte number is empty. The lookups follow the references between constants down to
texts: a member's owner, name and descriptor, the kind and member of a method handle, the name and
descriptor of a dynamic call. `ResolutionError` is the cause when one of them does not resolve.
-/

namespace Forwarder

/-- The slots of a constant pool. -/
structure ConstantPool where
  slots : Array (Option Constant)
  deriving Repr, DecidableEq

/-- A member that a constant refers to, by name. -/
structure MemberRef where
  kind : MemberKind
  owner : String
  name : String
  descriptor : String
  deriving Repr, DecidableEq

/-- A method handle: what it does with which member. -/
structure MethodHandle where
  kind : HandleKind
  member : MemberRef
  deriving Repr, DecidableEq

/-- A dynamic call: the bootstrap entry that links it, and the name and descriptor of the call. -/
structure DynamicCall where
  bootstrapIndex : Int
  name : String
  descriptor : String
  deriving Repr, DecidableEq

/-- Why an index does not resolve. -/
inductive ResolutionError where
  /-- The pool has no such slot. -/
  | outOfRange (index : Int) (size : Nat)
  /-- The slot is empty. -/
  | unusable (index : Int)
  /-- The slot holds a constant of another kind. -/
  | unexpected (expected : List Tag) (index : Int) (found : Int)
  /-- No method handle has this kind. -/
  | unknownKind (kind index : Int)
  /-- A member's descriptor is not a method descriptor. -/
  | malformedDescriptor (text : String)
  deriving Repr, DecidableEq

/-- The text that reports an index that does not resolve. -/
def ResolutionError.message : ResolutionError → String
  | outOfRange index size =>
    let last : Int := size - 1
    s!"Constant pool index {index} out of range 1..{last}"
  | unusable index => s!"Constant pool index {index} is an unusable slot"
  | unexpected expected index found =>
    let names := "/".intercalate (expected.map Tag.name)
    s!"Expected {names} at index {index}, got tag {found}"
  | unknownKind kind index => s!"Unknown method handle kind {kind} at index {index}"
  | malformedDescriptor text => s!"Invalid method descriptor {text}"

namespace ConstantPool

/-- The number of slots. -/
def size (pool : ConstantPool) : Nat := pool.slots.size

/-- The constant in a slot. -/
def entry (pool : ConstantPool) (index : Int) : Except ResolutionError Constant :=
  if 0 < index ∧ index < pool.size then
    match pool.slots[index.toNat]? with
    | some (some c) => .ok c
    | _ => .error (.unusable index)
  else .error (.outOfRange index pool.size)

/-- The text of a text constant. -/
def utf8 (pool : ConstantPool) (index : Int) : Except ResolutionError String := do
  match ← pool.entry index with
  | .utf8 s => return s
  | c => throw (.unexpected [.utf8] index c.tag)

/-- The name of a class constant, with slashes between its parts. -/
def className (pool : ConstantPool) (index : Int) : Except ResolutionError String := do
  match ← pool.entry index with
  | .classRef name => pool.utf8 name
  | c => throw (.unexpected [.classRef] index c.tag)

/-- The name and the descriptor of a constant that pairs them. -/
def nameAndType (pool : ConstantPool) (index : Int) : Except ResolutionError (String × String) := do
  match ← pool.entry index with
  | .nameAndType name descriptor => return (← pool.utf8 name, ← pool.utf8 descriptor)
  | c => throw (.unexpected [.nameAndType] index c.tag)

/-- The member that a constant refers to. Its name and descriptor are looked up before its owner. -/
def member (pool : ConstantPool) (index : Int) : Except ResolutionError MemberRef := do
  match ← pool.entry index with
  | .member kind owner nameAndType =>
    let (name, descriptor) ← pool.nameAndType nameAndType
    return ⟨kind, ← pool.className owner, name, descriptor⟩
  | c =>
    throw (.unexpected [.member .field, .member .method, .member .interfaceMethod] index c.tag)

/-- The method handle of a constant. Its kind is checked before its member is looked up. -/
def methodHandle (pool : ConstantPool) (index : Int) : Except ResolutionError MethodHandle := do
  match ← pool.entry index with
  | .methodHandle kind reference =>
    match HandleKind.ofNumber? kind with
    | some kind => return ⟨kind, ← pool.member reference⟩
    | none => throw (.unknownKind kind index)
  | c => throw (.unexpected [.methodHandle] index c.tag)

/-- The dynamic call of a constant. -/
def dynamicCall (pool : ConstantPool) (index : Int) : Except ResolutionError DynamicCall := do
  match ← pool.entry index with
  | .invokeDynamic bootstrap nameAndType =>
    let (name, descriptor) ← pool.nameAndType nameAndType
    return ⟨bootstrap, name, descriptor⟩
  | c => throw (.unexpected [.invokeDynamic] index c.tag)

end ConstantPool

end Forwarder
