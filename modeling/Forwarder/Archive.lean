import Forwarder.Archive.Inflate
import Forwarder.Cursor
import Forwarder.Text.Utf8

/-!
# Archives

`Archive.decode` reads the members of a zip archive. The directory of an archive stands at its end
and says where the members are; what stands in front of the archive does not matter.
-/

namespace Forwarder.Archive

/-- A reader of a part of an archive. -/
abbrev Part := Cursor.Reader Unit

instance : MonadLift (Cursor.Reader Cursor.Fault) Part where
  monadLift r := r.mapFault fun _ => ()

/-- An unsigned number of `width` bytes, the least significant first. -/
def number (width : Nat) : Part Nat := do return Bytes.toNat (← Cursor.take width).reverse

/-- Reads a mark of four bytes. -/
def expect (mark : Nat) : Part Unit := do
  if (← number 4) ≠ mark then throw ()

/-- Where the directory is said to begin, its size, and the number of members. -/
structure Trailer where
  offset : Nat
  size : Nat
  count : Nat

/-- The number of bytes of a trailer without its comment. -/
def trailerSize : Nat := 22

/-- The trailer at the cursor. -/
def readTrailer : Part Trailer := do
  expect 0x06054B50
  Cursor.skip 6
  let count ← number 2
  let size ← number 4
  let offset ← number 4
  return ⟨offset, size, count⟩

/-- The last trailer that begins below an offset, with its offset. -/
def findTrailer (data : Array UInt8) : Nat → Option (Trailer × Nat)
  | 0 => none
  | n + 1 =>
    match readTrailer ⟨data, n⟩ with
    | .ok (trailer, _) => some (trailer, n)
    | .error _ => findTrailer data n

/-- What the directory says of a member. -/
structure Header where
  name : String
  method : Nat
  size : Nat
  offset : Nat

/-- The header of a member at the cursor. -/
def readHeader : Part Header := do
  expect 0x02014B50
  Cursor.skip 6
  let method ← number 2
  Cursor.skip 8
  let size ← number 4
  Cursor.skip 4
  let nameLength ← number 2
  let extraLength ← number 2
  let commentLength ← number 2
  Cursor.skip 8
  let offset ← number 4
  let name ← Cursor.take nameLength
  Cursor.skip (extraLength + commentLength : Nat)
  return ⟨Utf8.decode name, method, size, offset⟩

/-- The headers of some members at the cursor. -/
def readHeaders : Nat → Part (List Header)
  | 0 => return []
  | n + 1 => do
    let header ← readHeader
    return header :: (← readHeaders n)

/-- The stored bytes of a member at the cursor. -/
def readStored (h : Header) : Part Bytes := do
  expect 0x04034B50
  Cursor.skip 22
  let nameLength ← number 2
  let extraLength ← number 2
  Cursor.skip (nameLength + extraLength : Nat)
  Cursor.take h.size

/-- The bytes of a member of an archive that begins at `start`. -/
def member (data : Array UInt8) (start : Nat) (h : Header) : Option Bytes :=
  match readStored h ⟨data, start + h.offset⟩ with
  | .error _ => none
  | .ok (stored, _) =>
    if h.method = 0 then some stored
    else if h.method = 8 then Inflate.inflate stored
    else none

/-- The members of an archive in the order of its directory, if the bytes are an archive. -/
def decode (data : Bytes) : Option (List (String × Bytes)) := do
  let data := data.toArray
  let (trailer, location) ← findTrailer data (data.size + 1 - trailerSize)
  let start := location - (trailer.size + trailer.offset)
  match readHeaders trailer.count ⟨data, start + trailer.offset⟩ with
  | .error _ => none
  | .ok (headers, _) => headers.mapM fun h => do return (h.name, ← member data start h)

end Forwarder.Archive
