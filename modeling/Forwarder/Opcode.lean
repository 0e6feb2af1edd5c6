/-!
# Opcodes

The instruction set of the virtual machine has 202 opcodes, numbered without gaps from 0. An
`Opcode` is such a number; `Opcode.mnemonic` is its name and `Opcode.layout` says how the width of
its operands is found.
-/

namespace Forwarder

/-- An opcode of the virtual machine, as its number. -/
structure Opcode where
  code : Fin 202
  deriving DecidableEq, Repr

namespace Opcode

/-- The opcode of a number, if there is one. -/
def ofNat? (n : Nat) : Option Opcode :=
  if h : n < 202 then some ⟨⟨n, h⟩⟩ else none

/-- The byte that encodes an opcode. -/
def toByte (op : Opcode) : UInt8 := UInt8.ofNat op.code

/-- The opcode that a byte encodes, if there is one. -/
def ofByte? (b : UInt8) : Option Opcode := ofNat? b.toNat

/-- The opcode of a number is the one with that code. -/
theorem ofNat?_eq_some_iff {n : Nat} {op : Opcode} : ofNat? n = some op ↔ n = op.code := by
  unfold ofNat?
  split
  · rename_i h
    simp only [Option.some.injEq]
    constructor
    · rintro rfl; rfl
    · rintro rfl; rfl
  · rename_i h
    constructor
    · intro h'; cases h'
    · intro h'; have := op.code.isLt; omega

/-- Every opcode is that of its byte. -/
@[simp] theorem ofByte?_toByte (op : Opcode) : ofByte? op.toByte = some op := by
  have := op.code.isLt
  simp only [ofByte?, ofNat?_eq_some_iff, toByte, UInt8.toNat_ofNat']
  omega

/-- The names of the opcodes, in the order of their numbers. -/
def mnemonics : Array String := #[
  "NOP", "ACONST_NULL", "ICONST_M1", "ICONST_0", "ICONST_1", "ICONST_2", "ICONST_3", "ICONST_4",
  "ICONST_5", "LCONST_0", "LCONST_1", "FCONST_0", "FCONST_1", "FCONST_2", "DCONST_0", "DCONST_1",
  "BIPUSH", "SIPUSH", "LDC", "LDC_W", "LDC2_W", "ILOAD", "LLOAD", "FLOAD", "DLOAD", "ALOAD",
  "ILOAD_0", "ILOAD_1", "ILOAD_2", "ILOAD_3", "LLOAD_0", "LLOAD_1", "LLOAD_2", "LLOAD_3",
  "FLOAD_0", "FLOAD_1", "FLOAD_2", "FLOAD_3", "DLOAD_0", "DLOAD_1", "DLOAD_2", "DLOAD_3",
  "ALOAD_0", "ALOAD_1", "ALOAD_2", "ALOAD_3", "IALOAD", "LALOAD", "FALOAD", "DALOAD", "AALOAD",
  "BALOAD", "CALOAD", "SALOAD", "ISTORE", "LSTORE", "FSTORE", "DSTORE", "ASTORE", "ISTORE_0",
  "ISTORE_1", "ISTORE_2", "ISTORE_3", "LSTORE_0", "LSTORE_1", "LSTORE_2", "LSTORE_3", "FSTORE_0",
  "FSTORE_1", "FSTORE_2", "FSTORE_3", "DSTORE_0", "DSTORE_1", "DSTORE_2", "DSTORE_3", "ASTORE_0",
  "ASTORE_1", "ASTORE_2", "ASTORE_3", "IASTORE", "LASTORE", "FASTORE", "DASTORE", "AASTORE",
  "BASTORE", "CASTORE", "SASTORE", "POP", "POP2", "DUP", "DUP_X1", "DUP_X2", "DUP2", "DUP2_X1",
  "DUP2_X2", "SWAP", "IADD", "LADD", "FADD", "DADD", "ISUB", "LSUB", "FSUB", "DSUB", "IMUL",
  "LMUL", "FMUL", "DMUL", "IDIV", "LDIV", "FDIV", "DDIV", "IREM", "LREM", "FREM", "DREM", "INEG",
  "LNEG", "FNEG", "DNEG", "ISHL", "LSHL", "ISHR", "LSHR", "IUSHR", "LUSHR", "IAND", "LAND", "IOR",
  "LOR", "IXOR", "LXOR", "IINC", "I2L", "I2F", "I2D", "L2I", "L2F", "L2D", "F2I", "F2L", "F2D",
  "D2I", "D2L", "D2F", "I2B", "I2C", "I2S", "LCMP", "FCMPL", "FCMPG", "DCMPL", "DCMPG", "IFEQ",
  "IFNE", "IFLT", "IFGE", "IFGT", "IFLE", "IF_ICMPEQ", "IF_ICMPNE", "IF_ICMPLT", "IF_ICMPGE",
  "IF_ICMPGT", "IF_ICMPLE", "IF_ACMPEQ", "IF_ACMPNE", "GOTO", "JSR", "RET", "TABLESWITCH",
  "LOOKUPSWITCH", "IRETURN", "LRETURN", "FRETURN", "DRETURN", "ARETURN", "RETURN", "GETSTATIC",
  "PUTSTATIC", "GETFIELD", "PUTFIELD", "INVOKEVIRTUAL", "INVOKESPECIAL", "INVOKESTATIC",
  "INVOKEINTERFACE", "INVOKEDYNAMIC", "NEW", "NEWARRAY", "ANEWARRAY", "ARRAYLENGTH", "ATHROW",
  "CHECKCAST", "INSTANCEOF", "MONITORENTER", "MONITOREXIT", "WIDE", "MULTIANEWARRAY", "IFNULL",
  "IFNONNULL", "GOTO_W", "JSR_W"]

/-- Every opcode has a mnemonic. -/
theorem size_mnemonics : mnemonics.size = 202 := by
  decide +kernel

/-- The name of an opcode. -/
def mnemonic (op : Opcode) : String :=
  have : op.code < mnemonics.size := by rw [size_mnemonics]; exact op.code.isLt
  mnemonics[op.code]

/-! ## Opcodes that the library names -/

def iconstM1 : Opcode := ⟨0x02⟩
def iconst0 : Opcode := ⟨0x03⟩
def bipush : Opcode := ⟨0x10⟩
def sipush : Opcode := ⟨0x11⟩
def ldc : Opcode := ⟨0x12⟩
def ldcW : Opcode := ⟨0x13⟩
def ldc2W : Opcode := ⟨0x14⟩
def iload : Opcode := ⟨0x15⟩
def aload : Opcode := ⟨0x19⟩
def iload0 : Opcode := ⟨0x1A⟩
def aload0 : Opcode := ⟨0x2A⟩
def aload3 : Opcode := ⟨0x2D⟩
def istore : Opcode := ⟨0x36⟩
def astore : Opcode := ⟨0x3A⟩
def istore0 : Opcode := ⟨0x3B⟩
def astore3 : Opcode := ⟨0x4E⟩
def pop : Opcode := ⟨0x57⟩
def iinc : Opcode := ⟨0x84⟩
def ifeq : Opcode := ⟨0x99⟩
def jsr : Opcode := ⟨0xA8⟩
def ret : Opcode := ⟨0xA9⟩
def tableswitch : Opcode := ⟨0xAA⟩
def lookupswitch : Opcode := ⟨0xAB⟩
def ireturn : Opcode := ⟨0xAC⟩
def areturn : Opcode := ⟨0xB0⟩
def vreturn : Opcode := ⟨0xB1⟩
def getstatic : Opcode := ⟨0xB2⟩
def invokevirtual : Opcode := ⟨0xB6⟩
def invokespecial : Opcode := ⟨0xB7⟩
def invokestatic : Opcode := ⟨0xB8⟩
def invokeinterface : Opcode := ⟨0xB9⟩
def invokedynamic : Opcode := ⟨0xBA⟩
def new : Opcode := ⟨0xBB⟩
def newarray : Opcode := ⟨0xBC⟩
def anewarray : Opcode := ⟨0xBD⟩
def checkcast : Opcode := ⟨0xC0⟩
def instanceof : Opcode := ⟨0xC1⟩
def wide : Opcode := ⟨0xC4⟩
def multianewarray : Opcode := ⟨0xC5⟩
def ifnull : Opcode := ⟨0xC6⟩
def ifnonnull : Opcode := ⟨0xC7⟩
def gotoW : Opcode := ⟨0xC8⟩
def jsrW : Opcode := ⟨0xC9⟩

/-! ## Classes of opcodes -/

/-- Whether an opcode's number lies between those of two others, ends included. -/
def isBetween (op first last : Opcode) : Bool := first.code ≤ op.code && op.code ≤ last.code

/-- How the width of an opcode's operands is found. -/
inductive Layout where
  /-- It is always the same. -/
  | fixed (width : Nat)
  /-- A jump table over a range of numbers, aligned to four bytes. -/
  | tableSwitch
  /-- A jump table over listed numbers, aligned to four bytes. -/
  | lookupSwitch
  /-- It depends on the opcode that follows. -/
  | wide
  deriving DecidableEq, Repr

/-- The layout of an opcode's operands. -/
def layout (op : Opcode) : Layout :=
  if op = tableswitch then .tableSwitch
  else if op = lookupswitch then .lookupSwitch
  else if op = wide then .wide
  else if op ∈ [bipush, ldc, ret, newarray] ∨ op.isBetween iload aload
      ∨ op.isBetween istore astore then .fixed 1
  else if op.isBetween ifeq jsr ∨ op.isBetween getstatic invokestatic
      ∨ op ∈ [sipush, ldcW, ldc2W, iinc, new, anewarray, checkcast, instanceof, ifnull, ifnonnull]
    then .fixed 2
  else if op = multianewarray then .fixed 3
  else if op ∈ [invokeinterface, invokedynamic, gotoW, jsrW] then .fixed 4
  else .fixed 0

/-- Whether the first two operand bytes of an opcode are an index into the constant pool. -/
def namesConstant (op : Opcode) : Bool :=
  op.isBetween getstatic invokedynamic
    || op ∈ [ldcW, ldc2W, new, anewarray, checkcast, instanceof, multianewarray]

/-- Whether an opcode ends a method by returning. -/
def isReturn (op : Opcode) : Bool := op.isBetween ireturn vreturn

end Opcode

end Forwarder
