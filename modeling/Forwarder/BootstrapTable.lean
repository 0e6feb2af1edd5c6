import Forwarder.ConstantPool
import Forwarder.Cursor

/-!
# Bootstrap tables

The `BootstrapMethods` attribute of a class lists the methods that link its dynamic calls, each with
the constants that it is given. `BootstrapTable.decode` reads the attribute and refuses bytes that
end too early or go on too long; `BootstrapTable.encode` writes it.
-/

namespace Forwarder

/-- One bootstrap method: the index of its handle and the indices of its arguments. -/
structure BootstrapEntry where
  method : Nat
  arguments : List Nat
  deriving Repr, DecidableEq

/-- The bootstrap methods of a class. -/
structure BootstrapTable where
  entries : Array BootstrapEntry
  deriving Repr, DecidableEq

namespace BootstrapTable

/-- The name of the attribute that holds the table. -/
def attributeName : String := "BootstrapMethods"

/-- Why bytes are no bootstrap table, or a table has no such entry. -/
inductive Error where
  /-- The bytes end inside the number of entries. -/
  | short (fault : Cursor.Fault)
  /-- The bytes end inside an entry. -/
  | truncated (index count : Nat) (fault : Cursor.Fault)
  /-- Bytes follow the last entry. -/
  | trailing (extra : Int) (count : Nat)
  /-- The table has no entry of this index. -/
  | outOfRange (index : Int) (count : Nat)
  deriving Repr, DecidableEq

/-- The text that reports an error. -/
def Error.message : Error → String
  | short fault => s!"BootstrapMethods attribute too short: {fault.message}"
  | truncated index count fault => s!"Truncated bootstrap entry {index} of {count}: {fault.message}"
  | trailing extra count => s!"{extra} trailing byte(s) after {count} bootstrap entries"
  | outOfRange index count => s!"Bootstrap index {index} out of range for {count} entries"

/-- The entry at the cursor. -/
def readEntry : Cursor.Reader Cursor.Fault BootstrapEntry := do
  let method ← Cursor.u2
  let count ← Cursor.u2
  let arguments ← Cursor.u2Array count
  return ⟨method, arguments⟩

/-- The last `left` entries of a table of `count`, behind those already read. -/
def readEntries (count : Nat) :
    (left : Nat) → Array BootstrapEntry → Cursor.Reader Error (Array BootstrapEntry)
  | 0, entries => return entries
  | left + 1, entries => do
    let entry ← readEntry.mapFault (.truncated (count - (left + 1)) count)
    readEntries count left (entries.push entry)

/-- The table at the cursor, which must end with the buffer. -/
def read : Cursor.Reader Error BootstrapTable := do
  let count ← Cursor.u2.mapFault .short
  let entries ← readEntries count count #[]
  let extra := (← get).remaining
  if extra ≠ 0 then throw (.trailing extra count)
  return ⟨entries⟩

/-- The table that the bytes of an attribute hold. -/
def decode (data : Bytes) : Except Error BootstrapTable :=
  (read (.ofBytes data)).map Prod.fst

/-- The number of entries. -/
def size (table : BootstrapTable) : Nat := table.entries.size

/-- The entry of an index. -/
def entry (table : BootstrapTable) (index : Int) : Except Error BootstrapEntry :=
  if 0 ≤ index then
    match table.entries[index.toNat]? with
    | some e => .ok e
    | none => .error (.outOfRange index table.size)
  else .error (.outOfRange index table.size)

end BootstrapTable

namespace BootstrapEntry

/-- The first method handle among some arguments, if any; every argument before it must resolve. -/
def firstHandle (pool : ConstantPool) : List Nat → Except ResolutionError (Option MethodHandle)
  | [] => .ok none
  | arg :: args => do
    match ← pool.entry arg with
    | .methodHandle _ _ => return some (← pool.methodHandle arg)
    | _ => firstHandle pool args

/-- The first method handle among an entry's arguments, if any. -/
def handle (pool : ConstantPool) (e : BootstrapEntry) :
    Except ResolutionError (Option MethodHandle) :=
  firstHandle pool e.arguments

end BootstrapEntry

/-- The bytes of an entry. -/
def BootstrapEntry.encode (e : BootstrapEntry) : Bytes :=
  Bytes.ofNat 2 e.method ++ Bytes.ofNat 2 e.arguments.length ++ e.arguments.flatMap (Bytes.ofNat 2)

/-- The bytes of a table. -/
def BootstrapTable.encode (table : BootstrapTable) : Bytes :=
  Bytes.ofNat 2 table.size ++ table.entries.toList.flatMap BootstrapEntry.encode

end Forwarder
