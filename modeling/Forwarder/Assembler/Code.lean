import Forwarder.Assembler.Pool
import Forwarder.ClassFile
import Forwarder.Opcode

/-!
# Building code

A `CodeBuilder` collects the bytes of a method's code and keeps account of the stack and the local
variables. Its calls are listed by `CodeBuilder.Call`; `Call.perform` carries one out, and what it
did before an error stays done.
-/

namespace Forwarder

/-- Code under construction: its bytes, the greatest and the current depth of the stack, the number
of local variables, and the lines of its instructions. -/
structure CodeBuilder where
  code : Array UInt8
  maxStack : Int
  maxLocals : Int
  depth : Int
  lines : Array LineEntry
  deriving Repr, DecidableEq

namespace CodeBuilder

/-- No code yet, for a method with a number of local variables. -/
def empty (maxLocals : Int) : CodeBuilder := ⟨#[], 0, maxLocals, 0, #[]⟩

/-- The offset of the next instruction. -/
def position (b : CodeBuilder) : Nat := b.code.size

/-- Code and the pool that it refers to. -/
structure Emission where
  pool : PoolBuilder
  code : CodeBuilder

/-- A computation that adds to code and pool and may fail on the way. -/
abbrev Emit := ExceptT EncodeError (StateM Emission)

/-- Changes the code. -/
def change (f : CodeBuilder → CodeBuilder) : Emit Unit :=
  modify fun ⟨pool, code⟩ => ⟨pool, f code⟩

/-- Adds to the pool. -/
def pooling {α : Type} (m : Pooling α) : Emit α :=
  modifyGet fun ⟨pool, code⟩ =>
    let (a, pool) := m pool
    (a, ⟨pool, code⟩)

/-- Notes that values are put on the stack. -/
def push (count : Int) : Emit Unit := change fun b =>
  let depth := b.depth + count
  { b with depth, maxStack := max b.maxStack depth }

/-- Notes that values are taken from the stack. -/
def drop (count : Int) : Emit Unit := change fun b => { b with depth := b.depth - count }

/-- Appends bytes to the code. -/
def emitBytes (bs : Bytes) : Emit Unit := change fun b => { b with code := b.code ++ bs }

/-- Appends a byte to the code. -/
def emitByte (i : Int) : Emit Unit := do
  let b ← ofExcept (Encode.byte i)
  emitBytes [b]

/-- Appends an opcode to the code. -/
def emitOpcode (op : Opcode) : Emit Unit := emitBytes [op.toByte]

/-- Appends a two-byte number to the code. -/
def emitU2 (i : Int) : Emit Unit := do emitBytes (← ofExcept (Encode.u2 i))

/-- A load of a constant by its index, in the short form if the index is a byte. -/
def emitConstant (index : Nat) : Emit Unit :=
  if index ≤ 255 then do
    emitOpcode .ldc
    emitByte index
  else do
    emitOpcode .ldcW
    emitU2 index

/-- The calls that invoke a method of a class. -/
inductive Invoke where
  | virtual
  | special
  | static
  | interface
  deriving Repr, DecidableEq

/-- The opcode of a call. -/
def Invoke.opcode : Invoke → Opcode
  | virtual => .invokevirtual
  | special => .invokespecial
  | static => .invokestatic
  | interface => .invokeinterface

/-- The kind of member that a call refers to. -/
def Invoke.memberKind : Invoke → MemberKind
  | interface => .interfaceMethod
  | _ => .method

/-- The number of values that a call takes from the stack beside its arguments. -/
def Invoke.receivers : Invoke → Int
  | static => 0
  | _ => 1

/-- A call of a code builder. The sizes of arguments and results count stack slots. -/
inductive Call where
  /-- The instructions that follow come from a line. -/
  | line (number : Int)
  | iconst (value : Int)
  | ldcString (text : String)
  | aload (slot : Int)
  | pop
  | ireturn
  | areturn
  | vreturn
  | invoke (kind : Invoke) (owner name descriptor : String) (arguments results : Int)
  | invokeDynamic (bootstrap : Int) (name descriptor : String) (arguments results : Int)
  /-- Bytes that are taken as they are. -/
  | raw (bs : Bytes)
  deriving Repr, DecidableEq

/-- Appends the shortest instruction that loads an integer. -/
def emitInteger (value : Int) : Emit Unit :=
  if value = -1 then emitOpcode .iconstM1
  else if 0 ≤ value ∧ value ≤ 5 then emitByte (Opcode.iconst0.code + value)
  else if -128 ≤ value ∧ value ≤ 127 then emitBytes (Opcode.bipush.toByte :: Bytes.ofInt 1 value)
  else if -32768 ≤ value ∧ value ≤ 32767 then
    emitBytes (Opcode.sipush.toByte :: Bytes.ofInt 2 value)
  else do
    let index ← pooling (PoolBuilder.integer value)
    emitConstant index

/-- Carries out a call. -/
def Call.perform : Call → Emit Unit
  | line number => change fun b => { b with lines := b.lines.push ⟨b.position, number⟩ }
  | iconst value => do
    emitInteger value
    push 1
  | ldcString text => do
    let index ← pooling (PoolBuilder.string text)
    emitConstant index
    push 1
  | aload slot => do
    if slot ≤ 3 then emitByte (Opcode.aload0.code + slot)
    else
      emitOpcode .aload
      emitByte slot
    change fun b => { b with maxLocals := max b.maxLocals (slot + 1) }
    push 1
  | pop => do
    emitOpcode .pop
    drop 1
  | ireturn => do
    emitOpcode .ireturn
    drop 1
  | areturn => do
    emitOpcode .areturn
    drop 1
  | vreturn => emitOpcode .vreturn
  | invoke kind owner name descriptor arguments results => do
    let index ← pooling (PoolBuilder.member kind.memberKind owner name descriptor)
    emitOpcode kind.opcode
    emitU2 index
    if kind = .interface then
      emitByte (arguments + 1)
      emitByte 0
    drop (kind.receivers + arguments)
    push results
  | invokeDynamic bootstrap name descriptor arguments results => do
    let index ← pooling (PoolBuilder.invokeDynamic bootstrap name descriptor)
    emitOpcode .invokedynamic
    emitU2 index
    emitBytes [0, 0]
    drop arguments
    push results
  | raw bs => emitBytes bs

end CodeBuilder

end Forwarder
