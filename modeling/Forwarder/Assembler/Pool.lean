import Forwarder.Assembler.Constant
import Std.Data.HashMap

/-!
# Building a constant pool

A `PoolBuilder` collects constants. A constant that is there already is not added again: its index
is looked up. The additions of compound constants first add the constants that they refer to.
`PoolBuilder.encode` writes the pool.
-/

namespace Forwarder

/-- The slots of a pool under construction, and the index of every constant in it. -/
structure PoolBuilder where
  slots : Array (Option Constant)
  index : Std.HashMap Constant Nat

/-- A computation that adds to a pool. -/
abbrev Pooling := StateM PoolBuilder

namespace PoolBuilder

/-- A pool with only the slot that is never used. -/
def empty : PoolBuilder := ⟨#[none], {}⟩

/-- The number of slots. -/
def size (p : PoolBuilder) : Nat := p.slots.size

/-- Puts a constant behind the last slot; an eight-byte number leaves an empty slot behind it. -/
def append (c : Constant) : PoolBuilder → PoolBuilder
  | ⟨slots, index⟩ =>
    let index := index.insert c slots.size
    let slots := slots.push (some c)
    ⟨if c.width = 2 then slots.push none else slots, index⟩

/-- The index of a constant, which is added if it is not there. -/
def intern (c : Constant) : Pooling Nat := fun p =>
  match p.index[c]? with
  | some i => (i, p)
  | none => (p.size, p.append c)

/-- The index of a text. -/
def utf8 (text : String) : Pooling Nat := intern (.utf8 text)

/-- The index of a four-byte integer. -/
def integer (value : Int) : Pooling Nat := intern (.integer value)

/-- The index of an eight-byte integer. -/
def long (value : Int) : Pooling Nat := intern (.long value)

/-- The index of a class, by its name with slashes. -/
def classRef (name : String) : Pooling Nat := do intern (.classRef (← utf8 name))

/-- The index of a string. -/
def string (text : String) : Pooling Nat := do intern (.string (← utf8 text))

/-- The index of a name with a descriptor. -/
def nameAndType (name descriptor : String) : Pooling Nat := do
  let name ← utf8 name
  let descriptor ← utf8 descriptor
  intern (.nameAndType name descriptor)

/-- The index of a member of a class. -/
def member (kind : MemberKind) (owner name descriptor : String) : Pooling Nat := do
  let owner ← classRef owner
  let nameAndType ← nameAndType name descriptor
  intern (.member kind owner nameAndType)

/-- The index of a method handle. -/
def methodHandle (kind reference : Int) : Pooling Nat := intern (.methodHandle kind reference)

/-- The index of a method type. -/
def methodType (descriptor : String) : Pooling Nat := do intern (.methodType (← utf8 descriptor))

/-- The index of a dynamic call. -/
def invokeDynamic (bootstrap : Int) (name descriptor : String) : Pooling Nat := do
  intern (.invokeDynamic bootstrap (← nameAndType name descriptor))

/-- The index of the last of the texts that a stem makes with the numbers below `count`. -/
def fill (stem : String) (count : Nat) : Pooling (Option Nat) :=
  (List.range count).foldlM (fun _ i => some <$> utf8 (stem ++ toString i)) none

end PoolBuilder

/-- One addition to a pool. -/
inductive PoolBuilder.Addition where
  | utf8 (text : String)
  | integer (value : Int)
  | long (value : Int)
  | classRef (name : String)
  | string (text : String)
  | nameAndType (name descriptor : String)
  | member (kind : MemberKind) (owner name descriptor : String)
  | methodHandle (kind reference : Int)
  | methodType (descriptor : String)
  | invokeDynamic (bootstrap : Int) (name descriptor : String)
  deriving Repr, DecidableEq

/-- Performs an addition and gives the index of the constant. -/
def PoolBuilder.Addition.perform : PoolBuilder.Addition → Pooling Nat
  | utf8 text => PoolBuilder.utf8 text
  | integer value => PoolBuilder.integer value
  | long value => PoolBuilder.long value
  | classRef name => PoolBuilder.classRef name
  | string text => PoolBuilder.string text
  | nameAndType name descriptor => PoolBuilder.nameAndType name descriptor
  | member kind owner name descriptor => PoolBuilder.member kind owner name descriptor
  | methodHandle kind reference => PoolBuilder.methodHandle kind reference
  | methodType descriptor => PoolBuilder.methodType descriptor
  | invokeDynamic bootstrap name descriptor => PoolBuilder.invokeDynamic bootstrap name descriptor

/-- The bytes of a pool, its number of slots first. -/
def PoolBuilder.encode (p : PoolBuilder) : Except EncodeError Bytes := do
  let count ← Encode.u2 p.size
  let constants ← (p.slots.toList.filterMap id).mapM Constant.encode
  return count ++ constants.flatten

end Forwarder
