import Forwarder.Bytes

/-!
# Writing numbers into fields

Fields of a class file have a fixed width. A number that does not fit is an error, and so is a byte
outside the range of bytes.
-/

namespace Forwarder

/-- Why something cannot be written. -/
inductive EncodeError where
  /-- What stands for a field is no number that fits into it. -/
  | misfit
  /-- A number is no byte. -/
  | notByte
  /-- What stands for the field of a text is no text. -/
  | notText
  /-- Nothing stands for a field. -/
  | missing
  /-- Constants of this tag cannot be written. -/
  | unsupportedTag (tag : Int)
  deriving Repr, DecidableEq

/-- The text that reports an error. -/
def EncodeError.message : EncodeError → String
  | misfit => "number does not fit its field"
  | notText => "field needs a text"
  | missing => "field has no value"
  | notByte => "byte must be in range(0, 256)"
  | unsupportedTag tag => s!"Cannot write constant pool tag: {tag}"

namespace Encode

/-- The one byte that a number is. -/
def byte (i : Int) : Except EncodeError UInt8 :=
  if 0 ≤ i ∧ i < 256 then .ok (UInt8.ofNat i.toNat) else .error .notByte

/-- A number in an unsigned field of `width` bytes. -/
def unsigned (width : Nat) (i : Int) : Except EncodeError Bytes :=
  if 0 ≤ i ∧ i < Bytes.capacity width then .ok (Bytes.ofNat width i.toNat) else .error .misfit

/-- A number in a two's complement field of `width` bytes. -/
def signed (width : Nat) (i : Int) : Except EncodeError Bytes :=
  if -Bytes.capacity width ≤ 2 * i ∧ 2 * i < Bytes.capacity width then .ok (Bytes.ofInt width i)
  else .error .misfit

/-- A number in an unsigned field of one byte. -/
def u1 (i : Int) : Except EncodeError Bytes := unsigned 1 i

/-- A number in an unsigned field of two bytes. -/
def u2 (i : Int) : Except EncodeError Bytes := unsigned 2 i

/-- A number in an unsigned field of four bytes. -/
def u4 (i : Int) : Except EncodeError Bytes := unsigned 4 i

end Encode

end Forwarder
