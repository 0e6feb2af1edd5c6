import Forwarder.Assembler.Encode
import Forwarder.Constant
import Forwarder.Text.Utf8

/-!
# Writing constants

Behind its tag a constant has fields. `Tag.fields?` says which fields a tag has, `Constant.operands`
says what a constant puts into them, and `Constant.encode` writes the tag and the fields. Operands
beyond the fields distinguish constants in a pool, but they are not written.
-/

namespace Forwarder

/-- A field behind the tag of a constant. -/
inductive Field where
  /-- An unsigned number of `width` bytes. -/
  | unsigned (width : Nat)
  /-- A two's complement number of `width` bytes. -/
  | signed (width : Nat)
  /-- A text behind the number of its bytes. -/
  | text
  deriving Repr, DecidableEq

/-- The bytes of an operand in a field. -/
def Field.encode : Field → Operand → Except EncodeError Bytes
  | unsigned width, .number n => Encode.unsigned width n
  | signed width, .number n => Encode.signed width n
  | text, .text s => do
    let data := Utf8.encode s
    return (← Encode.u2 data.length) ++ data
  | text, .number _ => .error .notText
  | _, .text _ => .error .misfit

/-- The fields behind a tag, for the tags that can be written. -/
def Tag.fields? : Tag → Option (List Field)
  | utf8 => some [.text]
  | integer => some [.signed 4]
  | long => some [.signed 8]
  | classRef | string | methodType => some [.unsigned 2]
  | member _ | nameAndType | invokeDynamic => some [.unsigned 2, .unsigned 2]
  | methodHandle => some [.unsigned 1, .unsigned 2]
  | float | double | dynamic | moduleRef | packageRef => none

namespace Constant

/-- What stands behind the tag of a constant; a floating-point number stands there as its bit
pattern. -/
def operands : Constant → List Operand
  | utf8 text => [.text text]
  | integer value | long value => [.number value]
  | float bits => [.number bits.toNat]
  | double bits => [.number bits.toNat]
  | classRef i | string i | methodType i | moduleRef i | packageRef i => [.number i]
  | member _ i j | nameAndType i j | methodHandle i j | dynamic i j | invokeDynamic i j =>
    [.number i, .number j]
  | other _ operands => operands

/-- The bytes of a constant behind its tag. -/
def encodeOperands (c : Constant) : Except EncodeError Bytes :=
  match (Tag.ofNumber? c.tag).bind Tag.fields? with
  | none => .error (.unsupportedTag c.tag)
  | some fields =>
    if c.operands.length < fields.length then .error .missing
    else do
      let parts ← (fields.zip c.operands).mapM fun (field, operand) => field.encode operand
      return parts.flatten

/-- The bytes of a constant. -/
def encode (c : Constant) : Except EncodeError Bytes := do
  let tag ← Encode.byte c.tag
  return tag :: (← c.encodeOperands)

end Constant

end Forwarder
