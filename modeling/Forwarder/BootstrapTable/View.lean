import Forwarder.BootstrapTable

/-!
# Bootstrap tables that are looked up in place

Entries have different widths. A `BootstrapView` keeps the bytes of the attribute and the offset of
every entry, found by one walk that skips the entries (`BootstrapView.ofBytes`). An entry is read
where it stands whenever it is looked up (`BootstrapView.entry`).
-/

namespace Forwarder

/-- The bytes of a bootstrap table and the offset of every entry in them. -/
structure BootstrapView where
  data : Bytes
  offsets : Array Nat
  deriving Repr, DecidableEq

namespace BootstrapView

open BootstrapTable (Error)

/-- Why a lookup fails. -/
inductive Failure where
  /-- The table has no such entry. -/
  | malformed (error : Error)
  /-- The bytes end inside the entry. -/
  | fault (fault : Cursor.Fault)
  deriving Repr, DecidableEq

/-- Advances past the entry at the cursor. -/
def skipEntry : Cursor.Reader Cursor.Fault Unit := do
  Cursor.skip 2
  Cursor.skip (2 * (← Cursor.u2))

/-- The offsets of the last `left` entries of a table of `count`, behind those already found. -/
def locate (count : Nat) : (left : Nat) → Array Nat → Cursor.Reader Error (Array Nat)
  | 0, offsets => return offsets
  | left + 1, offsets => do
    let offset := (← get).pos
    skipEntry.mapFault (.truncated (count - (left + 1)) count)
    locate count left (offsets.push offset)

/-- The offsets of the entries of the table at the cursor, which must end with the buffer. -/
def scan : Cursor.Reader Error (Array Nat) := do
  let count ← Cursor.u2.mapFault .short
  let offsets ← locate count count #[]
  let extra := (← get).remaining
  if extra ≠ 0 then throw (.trailing extra count)
  return offsets

/-- The view of the bytes of an attribute. -/
def ofBytes (data : Bytes) : Except Error BootstrapView :=
  (scan (.ofBytes data)).map fun (offsets, _) => ⟨data, offsets⟩

/-- The number of entries. -/
def size (v : BootstrapView) : Nat := v.offsets.size

/-- The entry of an index, read at its offset. -/
def entry (v : BootstrapView) (index : Int) : Except Failure BootstrapEntry :=
  if 0 ≤ index then
    match v.offsets[index.toNat]? with
    | some offset =>
      ((BootstrapTable.readEntry ⟨v.data.toArray, offset⟩).map Prod.fst).mapError .fault
    | none => .error (.malformed (.outOfRange index v.size))
  else .error (.malformed (.outOfRange index v.size))

/-- All entries, in order. -/
def entries (v : BootstrapView) : Except Failure (List BootstrapEntry) :=
  (List.range v.size).mapM fun index : Nat => v.entry index

end BootstrapView

end Forwarder
