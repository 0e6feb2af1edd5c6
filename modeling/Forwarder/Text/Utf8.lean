import Forwarder.Bytes

/-!
# UTF-8

`encode` writes a string in UTF-8. `decode` reads any byte string: well-formed sequences give their
characters, and every maximal part of the input that begins a sequence and cannot be completed, or
begins none, gives one replacement character. `decode` steps through the bytes with the sequence
begun so far, if any, as its state.
-/

namespace Forwarder.Utf8

/-- The character that stands for bytes that are not UTF-8. -/
def replacement : Char := '\uFFFD'

/-- The UTF-8 bytes of a string. -/
def encode (s : String) : Bytes :=
  s.toList.flatMap String.utf8EncodeChar

/-- A multi-byte sequence that has begun: the number of bytes it still needs, the bounds of the
next of them, and the bits collected so far. -/
structure Partial where
  owed : Nat
  low : UInt8
  high : UInt8
  bits : Nat
  deriving Repr, DecidableEq

/-- What a byte that stands at the start of a character means. -/
inductive Lead where
  /-- It is a character of its own. -/
  | character (c : Char)
  /-- It begins a sequence. -/
  | begins (p : Partial)
  /-- It begins nothing. -/
  | invalid
  deriving Repr, DecidableEq

/-- The role of a byte at the start of a character. The bounds on the second byte exclude overlong
forms, surrogates and numbers beyond the last code point. -/
def lead (b : UInt8) : Lead :=
  if b < 0x80 then .character (Char.ofNat b.toNat)
  else if b < 0xC2 then .invalid
  else if b < 0xE0 then .begins ⟨1, 0x80, 0xBF, b.toNat % 32⟩
  else if b = 0xE0 then .begins ⟨2, 0xA0, 0xBF, 0⟩
  else if b = 0xED then .begins ⟨2, 0x80, 0x9F, 13⟩
  else if b < 0xF0 then .begins ⟨2, 0x80, 0xBF, b.toNat % 16⟩
  else if b = 0xF0 then .begins ⟨3, 0x90, 0xBF, 0⟩
  else if b < 0xF4 then .begins ⟨3, 0x80, 0xBF, b.toNat % 8⟩
  else if b = 0xF4 then .begins ⟨3, 0x80, 0x8F, 4⟩
  else .invalid

/-- What a byte at the start of a character yields, and the sequence that it begins. -/
def start (b : UInt8) : List Char × Option Partial :=
  match lead b with
  | .character c => ([c], none)
  | .begins p => ([], some p)
  | .invalid => ([replacement], none)

/-- What a byte yields after the sequence begun so far, and the sequence that is open behind it. A
byte that does not continue an open sequence closes it with a replacement character and starts
anew. -/
def step : Option Partial → UInt8 → List Char × Option Partial
  | none, b => start b
  | some p, b =>
    if p.low ≤ b ∧ b ≤ p.high then
      let bits := 64 * p.bits + b.toNat % 64
      if p.owed = 1 then ([Char.ofNat bits], none)
      else ([], some ⟨p.owed - 1, 0x80, 0xBF, bits⟩)
    else
      let (cs, p') := start b
      (replacement :: cs, p')

/-- The characters of a byte string behind an open sequence. A sequence that the end cuts off gives
a replacement character. -/
def decodeFrom : Option Partial → Bytes → List Char
  | none, [] => []
  | some _, [] => [replacement]
  | p, b :: bs => (step p b).1 ++ decodeFrom (step p b).2 bs

/-- The text of a byte string, with replacement characters where it is not UTF-8. -/
def decode (bs : Bytes) : String := String.ofList (decodeFrom none bs)

end Forwarder.Utf8
