import Forwarder.Bytes
import Forwarder.Opcode

/-!
# Instructions

An `Instruction` is an opcode at an offset of a method's code together with its raw operand bytes.
`constantIndex` and `localIndex` read the one operand that the analysis needs, and say which opcodes
have none.
-/

namespace Forwarder

/-- An instruction: its offset, its opcode and its operand bytes. -/
structure Instruction where
  pc : Nat
  opcode : Opcode
  operands : Bytes
  deriving DecidableEq, Repr

namespace Instruction

/-- Why an instruction has no such operand. -/
inductive OperandError where
  /-- The opcode does not refer to the constant pool. -/
  | noConstant (opcode : Opcode)
  /-- The opcode does not address a local variable. -/
  | noLocal (opcode : Opcode)
  /-- The operand bytes end before an index of `width` bytes does. -/
  | cut (width : Nat)
  deriving DecidableEq, Repr

/-- The text that reports a missing operand. -/
def OperandError.message : OperandError → String
  | noConstant op => s!"{op.mnemonic} has no constant pool operand"
  | noLocal op => s!"{op.mnemonic} does not address a local variable"
  | cut width => s!"an index of {width} byte(s) is cut off"

/-- The constant pool index of an instruction: one byte of a short load of a constant, two bytes
of the other opcodes that refer to the pool. -/
def constantIndex (ins : Instruction) : Except OperandError Nat :=
  if ins.opcode = .ldc then
    match ins.operands with
    | index :: _ => .ok index.toNat
    | _ => .error (.cut 1)
  else if ins.opcode.namesConstant then
    match ins.operands with
    | hi :: lo :: _ => .ok (256 * hi.toNat + lo.toNat)
    | _ => .error (.cut 2)
  else .error (.noConstant ins.opcode)

/-- The local variable that a load or store addresses, by its operand or by its opcode. -/
def localIndex (ins : Instruction) : Except OperandError Nat :=
  let op := ins.opcode
  if op.isBetween .iload .aload || op.isBetween .istore .astore then
    match ins.operands with
    | slot :: _ => .ok slot.toNat
    | _ => .error (.cut 1)
  else if op.isBetween .iload0 .aload3 then .ok ((op.code - Opcode.iload0.code : Nat) % 4)
  else if op.isBetween .istore0 .astore3 then .ok ((op.code - Opcode.istore0.code : Nat) % 4)
  else .error (.noLocal op)

/-- The bytes of an instruction. -/
def toBytes (ins : Instruction) : Bytes := ins.opcode.toByte :: ins.operands

/-- The offset behind an instruction. -/
def nextPc (ins : Instruction) : Nat := ins.pc + 1 + ins.operands.length

end Instruction

end Forwarder
