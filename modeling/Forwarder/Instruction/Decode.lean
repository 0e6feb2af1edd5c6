import Forwarder.Cursor
import Forwarder.Instruction
import Forwarder.Text.Hex

/-!
# Decoding a method's code

`Instruction.read` reads one instruction, `decode` reads instructions until the code ends or a
fault stops it and keeps those before the fault. `Code.contains` looks for an opcode and reads no
further than its first occurrence.
-/

namespace Forwarder

namespace Instruction

/-- Why the bytes at an offset are no instruction. -/
inductive DecodeFault where
  /-- The bytes end inside the instruction. -/
  | overrun (fault : Cursor.Fault)
  /-- No opcode has this number. -/
  | unknownOpcode (byte : Nat) (pc : Nat)
  /-- A jump table over a range that ends before it begins. -/
  | emptyRange (pc : Nat) (low high : Int)
  /-- A jump table with a negative number of entries. -/
  | negativePairs (pc : Nat)
  deriving DecidableEq, Repr

/-- The text that reports a fault. -/
def DecodeFault.message : DecodeFault → String
  | overrun fault => fault.message
  | unknownOpcode byte pc => s!"Unknown opcode 0x{Hex.ofByte byte} at pc {pc}"
  | emptyRange pc low high => s!"tableswitch at pc {pc} has high {high} < low {low}"
  | negativePairs pc => s!"lookupswitch at pc {pc} has negative npairs"

instance : MonadLift (Cursor.Reader Cursor.Fault) (Cursor.Reader DecodeFault) where
  monadLift r := r.mapFault .overrun

/-- The number of bytes that align the operands of a jump table at `pc` to four bytes. -/
def padding (pc : Nat) : Nat := (4 - (pc + 1) % 4) % 4

/-- The number of operand bytes of an opcode at `pc`, read ahead from its operands. -/
def operandWidth (op : Opcode) (pc : Nat) : Cursor.Reader DecodeFault Int := do
  match op.layout with
  | .fixed width => return width
  | .wide =>
    let modified ← Cursor.u1
    return if modified = Opcode.iinc.code then 5 else 3
  | .tableSwitch =>
    Cursor.skip (padding pc)
    Cursor.skip 4
    let low ← Cursor.i4
    let high ← Cursor.i4
    if high < low then throw (.emptyRange pc low high)
    return padding pc + 12 + 4 * (high - low + 1)
  | .lookupSwitch =>
    Cursor.skip (padding pc)
    Cursor.skip 4
    let npairs ← Cursor.i4
    if npairs < 0 then throw (.negativePairs pc)
    return padding pc + 8 + 8 * npairs

/-- Runs a reader and stays where it started. -/
def ahead {ε α : Type} (r : Cursor.Reader ε α) : Cursor.Reader ε α := fun c =>
  (r c).map fun (a, _) => (a, c)

/-- The opcode at the cursor. -/
def readOpcode (pc : Nat) : Cursor.Reader DecodeFault Opcode := do
  let byte ← Cursor.u1
  match Opcode.ofNat? byte with
  | some op => return op
  | none => throw (.unknownOpcode byte pc)

/-- The instruction at the cursor. -/
def read : Cursor.Reader DecodeFault Instruction := do
  let pc := (← get).pos
  let op ← readOpcode pc
  let width ← ahead (operandWidth op pc)
  let operands ← Cursor.take width
  return ⟨pc, op, operands⟩

section Progress

variable {c c' : Cursor} {pc : Nat} {op : Opcode} {width : Int}

/-- An opcode that is read is one byte behind the cursor. -/
theorem readOpcode_eq_ok (h : readOpcode pc c = .ok (op, c')) :
    c'.data = c.data ∧ c'.pos = c.pos + 1 := by
  simp only [readOpcode, Cursor.bind_eq_ok_iff, liftM, monadLift, MonadLift.monadLift,
    Cursor.mapFault_eq_ok_iff, Cursor.u1, Cursor.unsigned_eq, Cursor.pure_eq_ok_iff] at h
  obtain ⟨n, c₁, ⟨bs, c₂, hb, hn, rfl⟩, h⟩ := h
  obtain ⟨-, -, -, rfl⟩ := Cursor.take_eq_ok_iff.1 hb
  cases ho : Opcode.ofNat? n with
  | none =>
    rw [ho] at h
    exact absurd h Cursor.throw_ne_ok
  | some op =>
    rw [ho] at h
    obtain ⟨-, rfl⟩ := Cursor.pure_eq_ok_iff.1 h
    exact ⟨rfl, rfl⟩

/-- A look ahead leaves the cursor in place. -/
theorem ahead_eq_ok {ε α : Type} {r : Cursor.Reader ε α} {a : α}
    (h : ahead r c = .ok (a, c')) : c' = c := by
  cases hr : r c with
  | error e => simp [ahead, hr, Except.map] at h
  | ok p =>
    simp only [ahead, hr, Except.map, Except.ok.injEq, Prod.mk.injEq] at h
    exact h.2.symm

/-- Reading an instruction moves forward inside the buffer. -/
theorem read_eq_ok {ins : Instruction} (h : read c = .ok (ins, c')) :
    c'.data = c.data ∧ c.pos < c'.pos ∧ c'.pos ≤ c.length := by
  simp only [read, Cursor.bind_eq_ok_iff, Cursor.get_eq_ok_iff, liftM, monadLift,
    MonadLift.monadLift, Cursor.mapFault_eq_ok_iff, Cursor.pure_eq_ok_iff] at h
  obtain ⟨s, c₁, ⟨rfl, rfl⟩, op, c₂, hop, width, c₃, hw, bs, c₄, hb, -, rfl⟩ := h
  obtain ⟨hd, hp⟩ := readOpcode_eq_ok hop
  obtain rfl := ahead_eq_ok hw
  obtain ⟨h1, h2, -, rfl⟩ := Cursor.take_eq_ok_iff.1 hb
  have hl : c₃.length = c.length := by simp [Cursor.length, hd]
  refine ⟨hd, ?_, ?_⟩ <;> simp only [] <;> omega

end Progress

end Instruction

/-- The instructions of a code up to its end, or up to the fault that stops the decoding. -/
structure Decoded where
  instructions : List Instruction
  fault : Option Instruction.DecodeFault
  deriving DecidableEq, Repr

namespace Decoded

/-- Puts an instruction in front. -/
def cons (ins : Instruction) (d : Decoded) : Decoded :=
  { d with instructions := ins :: d.instructions }

/-- The instructions from a cursor on. -/
def ofCursor (c : Cursor) : Decoded :=
  if c.length ≤ c.pos then ⟨[], none⟩
  else
    match _h : Instruction.read c with
    | .error fault => ⟨[], some fault⟩
    | .ok (ins, c') => (ofCursor c').cons ins
termination_by c.length - c.pos
decreasing_by
  have := Instruction.read_eq_ok _h
  have : c'.length = c.length := by simp [Cursor.length, this.1]
  omega

/-- The instructions of a code. -/
def ofBytes (code : Bytes) : Decoded := ofCursor (.ofBytes code)

end Decoded

/-- Whether an opcode occurs from a cursor on, or the fault that is met before it. -/
def containsFrom (op : Opcode) (c : Cursor) : Except Instruction.DecodeFault Bool :=
  if c.length ≤ c.pos then .ok false
  else
    match _h : Instruction.read c with
    | .error fault => .error fault
    | .ok (ins, c') => if ins.opcode = op then .ok true else containsFrom op c'
termination_by c.length - c.pos
decreasing_by
  have := Instruction.read_eq_ok _h
  have : c'.length = c.length := by simp [Cursor.length, this.1]
  omega

/-- Whether an opcode occurs in a code; nothing behind its first occurrence is decoded. -/
def contains (op : Opcode) (code : Bytes) : Except Instruction.DecodeFault Bool :=
  containsFrom op (.ofBytes code)

end Forwarder
