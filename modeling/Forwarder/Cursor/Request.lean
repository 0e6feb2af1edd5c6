import Forwarder.Cursor

/-!
# Single steps of a cursor

A `Request` asks a cursor for one thing, an `Answer` is what it gives. `Request.perform` is the step
that answers it. A run of requests goes on after a fault, from where the step that failed left the
cursor.
-/

namespace Forwarder.Cursor

/-- One thing to ask of a cursor. -/
inductive Request where
  | length
  | remaining
  /-- An unsigned number of `width` bytes. -/
  | unsigned (width : Nat)
  /-- A two's complement number of `width` bytes. -/
  | signed (width : Nat)
  /-- The bit pattern of a floating-point number of four bytes. -/
  | binary32
  /-- The bit pattern of a floating-point number of eight bytes. -/
  | binary64
  | u2Array (count : Int)
  | bytes (size : Int)
  | skip (size : Int)
  | seek (offset : Int)
  deriving Repr, DecidableEq

/-- What a cursor gives. -/
inductive Answer where
  | done
  | number (n : Int)
  | numbers (ns : List Nat)
  | binary32 (bits : UInt32)
  | binary64 (bits : UInt64)
  | bytes (bs : Bytes)
  deriving Repr, DecidableEq

/-- The step that answers a request. -/
def Request.perform : Request → Step Answer
  | length => do return .number (← get).length
  | remaining => do return .number (← get).remaining
  | unsigned width => do return .number (← Step.unsigned width)
  | signed width => do return .number (← Step.signed width)
  | binary32 => do return .binary32 (UInt32.ofNat (← Step.unsigned 4))
  | binary64 => do return .binary64 (UInt64.ofNat (← Step.unsigned 8))
  | u2Array count => do return .numbers (← Step.u2Array count)
  | bytes size => do return .bytes (← Step.take size)
  | skip size => do Step.skip size; return .done
  | seek offset => do Step.seek offset; return .done

/-- What a request comes to, and the cursor behind it. -/
def answer (c : Cursor) (request : Request) : Except Fault Answer × Cursor :=
  request.perform.apply c

/-- Performs requests one after the other and keeps the cursor after each. -/
def answers (c : Cursor) : List Request → List (Except Fault Answer × Cursor)
  | [] => []
  | r :: rs => let (a, c') := c.answer r; (a, c') :: answers c' rs

end Forwarder.Cursor
