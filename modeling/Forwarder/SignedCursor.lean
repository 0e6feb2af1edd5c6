import Forwarder.Cursor.Request

/-!
# Cursors before the start of a buffer

The position of a `SignedCursor` may be negative; then it counts from the end of the buffer. Numbers
are read there if all of their bytes lie before the end, raw bytes are cut to what the buffer has.
At the other positions `SignedCursor.answer` is `Cursor.answer`, which `answer_ofCursor` says.
-/

namespace Forwarder

/-- A buffer and the offset of the next byte, which counts from the end if it is negative. -/
structure SignedCursor where
  data : Array UInt8
  pos : Int
  deriving Repr, DecidableEq

/-- The number of bytes of the numbers that a request reads. -/
def Cursor.Request.width : Cursor.Request → Int
  | unsigned width | signed width => width
  | binary32 => 4
  | binary64 => 8
  | u2Array count => 2 * count
  | length | remaining | bytes _ | skip _ | seek _ => 0

namespace SignedCursor

/-- Why a step fails. -/
inductive Fault where
  | cursor (fault : Cursor.Fault)
  /-- A position counts from the end, and not all bytes from it on lie inside the buffer before
  the end. -/
  | split
  deriving Repr, DecidableEq

/-- A cursor at the same position. -/
def ofCursor (c : Cursor) : SignedCursor := ⟨c.data, c.pos⟩

/-- The number of bytes in the buffer. -/
def length (c : SignedCursor) : Nat := c.data.size

/-- The offset from the start that an end of a slice stands for, cut to the buffer. -/
def clamp (c : SignedCursor) (i : Int) : Nat :=
  if i < 0 then (i + c.length).toNat else min i.toNat c.length

/-- A computation on a cursor that may fail on the way; what it did to the cursor before stays
done. -/
abbrev Step := ExceptT Fault (StateM SignedCursor)

namespace Step

/-- Refuses a size that is negative or reaches beyond the buffer. -/
def require (size : Int) : Step Unit := do
  let c ← get
  if size < 0 ∨ c.length < c.pos + size then throw (.cursor (.overrun size c.pos c.length))

/-- Moves past `size` bytes, whether they are there or not. -/
def advance (size : Int) : Step Unit := modify fun c => { c with pos := c.pos + size }

/-- A step of a cursor at an offset from the start of the buffer, and the cursor that it leaves. -/
def ofStep {α : Type} (offset : Nat) (s : Cursor.Step α) : Step α := do
  let (a, c) := s.apply ⟨(← get).data, offset⟩
  set (ofCursor c)
  ofExcept (a.mapError .cursor)

/-- What a step comes to, and the cursor behind it. -/
def apply {α : Type} (s : Step α) (c : SignedCursor) : Except Fault α × SignedCursor := s.run.run c

end Step

/-- The step that answers a request at a position that counts from the end. -/
def performFromEnd : Cursor.Request → Step Cursor.Answer
  | .length => do return .number (← get).length
  | .remaining => do
    let c ← get
    return .number (c.length - c.pos)
  | .seek offset => do
    let c ← get
    if offset < 0 ∨ c.length < offset then throw (.cursor (.outside offset c.length))
    else set (ofCursor ⟨c.data, offset.toNat⟩)
    return .done
  | .skip size => do
    Step.require size
    Step.advance size
    return .done
  | .bytes size => do
    Step.require size
    let c ← get
    Step.advance size
    return .bytes (c.data.extract (c.clamp c.pos) (c.clamp (c.pos + size))).toList
  | request => do
    Step.require request.width
    let c ← get
    if 0 < c.pos + request.width ∨ c.pos + c.length < 0 then throw .split
    else
      -- the bytes are those at the offset from the start, and the position still counts from the end
      let (a, _) := Cursor.answer ⟨c.data, (c.pos + c.length).toNat⟩ request
      let a ← ofExcept (a.mapError .cursor)
      Step.advance request.width
      return a

/-- The step that answers a request. -/
def perform (request : Cursor.Request) : Step Cursor.Answer := do
  let c ← get
  if c.pos < 0 then performFromEnd request else Step.ofStep c.pos.toNat request.perform

/-- What a request comes to, and the cursor behind it. -/
def answer (c : SignedCursor) (request : Cursor.Request) :
    Except Fault Cursor.Answer × SignedCursor :=
  (perform request).apply c

/-- Performs requests one after the other and keeps the cursor after each. -/
def answers (c : SignedCursor) :
    List Cursor.Request → List (Except Fault Cursor.Answer × SignedCursor)
  | [] => []
  | r :: rs => let (a, c') := c.answer r; (a, c') :: answers c' rs

/-- A step of a cursor comes to the same, and its fault is told as one of a cursor. -/
theorem Step.apply_ofStep {α : Type} {offset : Nat} {s : Cursor.Step α} {c : SignedCursor} :
    (ofStep offset s).apply c =
      ((s.apply ⟨c.data, offset⟩).1.mapError .cursor, ofCursor (s.apply ⟨c.data, offset⟩).2) := by
  show Step.apply (do
    set (ofCursor (s.apply ⟨c.data, offset⟩).2)
    ofExcept ((s.apply ⟨c.data, offset⟩).1.mapError .cursor)) c = _
  rcases s.apply ⟨c.data, offset⟩ with ⟨e | a, c₁⟩ <;> rfl

/-- From the start of the buffer on, the steps are those of a cursor. -/
theorem answer_ofCursor (c : Cursor) (request : Cursor.Request) :
    (ofCursor c).answer request =
      ((c.answer request).1.mapError .cursor, ofCursor (c.answer request).2) := by
  have h : ¬ (ofCursor c).pos < 0 := Int.not_lt.mpr (Int.natCast_nonneg c.pos)
  show (if (ofCursor c).pos < 0 then performFromEnd request
    else Step.ofStep (ofCursor c).pos.toNat request.perform).apply (ofCursor c) = _
  rw [if_neg h]
  exact Step.apply_ofStep

end SignedCursor

end Forwarder
