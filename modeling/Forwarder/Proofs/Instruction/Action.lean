import Forwarder.ConstantPool
import Forwarder.Instruction

/-!
# What an instruction does

`Instruction.action?` says what an instruction does in a pool, for the instructions that a code
builder emits: which integer, text or local variable it loads, what it calls and what it returns.
The opcode alone says so, or the operands, or the constant that they name.
-/

namespace Forwarder

/-- The opcode that loads the integer 5, the last of those that load an integer by themselves. -/
def Opcode.iconst5 : Opcode := ⟨⟨0x08, by decide⟩⟩

namespace Instruction

/-- What an instruction does. -/
inductive Action where
  | loadInteger (value : Int)
  | loadText (text : String)
  | loadReference (slot : Int)
  | pop
  | returnInteger
  | returnReference
  | returnNothing
  | invoke (opcode : Opcode) (member : MemberRef)
  | invokeDynamic (call : DynamicCall)
  deriving Repr, DecidableEq

/-- What the load of a constant does. -/
def Action.ofConstant? (pool : ConstantPool) : Constant → Option Action
  | .integer value => some (.loadInteger value)
  | .string text => (pool.utf8 text).toOption.map .loadText
  | _ => none

/-- What an instruction does, in the pool that its constant is looked up in. -/
def action? (pool : ConstantPool) (ins : Instruction) : Option Action :=
  let op := ins.opcode
  let index := ins.constantIndex.toOption
  if op.isBetween .iconstM1 .iconst5 then
    some (.loadInteger ((op.code.val : Int) - Opcode.iconst0.code.val))
  else if op = .bipush ∨ op = .sipush then some (.loadInteger ins.operands.toInt)
  else if op = .ldc ∨ op = .ldcW then
    index.bind fun i => (pool.entry i).toOption.bind (Action.ofConstant? pool)
  else if op = .aload ∨ op.isBetween .aload0 .aload3 then
    ins.localIndex.toOption.map fun (slot : Nat) => .loadReference slot
  else if op = .pop then some .pop
  else if op = .ireturn then some .returnInteger
  else if op = .areturn then some .returnReference
  else if op = .vreturn then some .returnNothing
  else if op.isBetween .invokevirtual .invokeinterface then
    index.bind fun i => (pool.member i).toOption.map (.invoke op)
  else if op = .invokedynamic then
    index.bind fun i => (pool.dynamicCall i).toOption.map .invokeDynamic
  else none

section Action

variable {pool : ConstantPool} {ins : Instruction} {op : Opcode} {operands : Bytes}
  {pc index : Nat} {a : Action}

/-- The opcodes of small integers load these. -/
theorem action?_small (h : op.isBetween .iconstM1 .iconst5 = true) :
    action? pool ⟨pc, op, operands⟩ =
      some (.loadInteger ((op.code.val : Int) - Opcode.iconst0.code.val)) := by
  unfold action?
  exact if_pos h

/-- An immediate integer is loaded with its sign. -/
theorem action?_immediate (h : op = .bipush ∨ op = .sipush) :
    action? pool ⟨pc, op, operands⟩ = some (.loadInteger operands.toInt) := by
  rcases h with rfl | rfl <;> rfl

/-- A constant is loaded from the pool. -/
theorem action?_constant (hop : ins.opcode = .ldc ∨ ins.opcode = .ldcW)
    (hindex : ins.constantIndex = .ok index) {c : Constant} (hc : pool.entry index = .ok c)
    (ha : Action.ofConstant? pool c = some a) : ins.action? pool = some a := by
  have hsmall : ins.opcode.isBetween .iconstM1 .iconst5 = false := by
    rcases hop with hop | hop <;> rw [hop] <;> decide
  have himmediate : ¬ (ins.opcode = .bipush ∨ ins.opcode = .sipush) := by
    rcases hop with hop | hop <;> rw [hop] <;> decide
  simp [action?, hsmall, himmediate, hop, hindex, hc, ha, Except.toOption]

/-- The opcodes of the first four local variables tell which of them is loaded. -/
theorem localIndex_short (code : Fin 202) (h : Opcode.isBetween ⟨code⟩ .aload0 .aload3 = true) :
    localIndex ⟨pc, ⟨code⟩, []⟩ = .ok (code.val - Opcode.aload0.code.val) := by
  have hcode : code = 42 ∨ code = 43 ∨ code = 44 ∨ code = 45 := by
    revert code
    decide +kernel
  rcases hcode with rfl | rfl | rfl | rfl <;> cbv

/-- A short load of a reference loads the variable that its opcode counts. -/
theorem action?_short (h : op.isBetween .aload0 .aload3 = true) :
    action? pool ⟨pc, op, []⟩ =
      some (.loadReference ((op.code.val : Int) - Opcode.aload0.code.val)) := by
  have hcode (code : Fin 202) : Opcode.isBetween ⟨code⟩ .aload0 .aload3 = true →
      Opcode.isBetween ⟨code⟩ .iconstM1 .iconst5 = false ∧
        Opcode.aload0.code.val ≤ code.val ∧
        ∀ op ∈ [Opcode.bipush, .sipush, .ldc, .ldcW], ⟨code⟩ ≠ op := by
    revert code
    decide +kernel
  obtain ⟨hsmall, hle, hother⟩ := hcode op.code h
  have hslot : localIndex ⟨pc, op, []⟩ = .ok (op.code.val - Opcode.aload0.code.val) :=
    localIndex_short op.code h
  simp only [List.mem_cons, List.not_mem_nil, or_false, forall_eq_or_imp, forall_eq] at hother
  have haction : action? pool ⟨pc, op, []⟩ =
      (localIndex ⟨pc, op, []⟩).toOption.map fun (slot : Nat) => .loadReference slot := by
    simp [action?, hsmall, hother, h]
  rw [haction, hslot, ← Int.ofNat_sub hle]
  rfl

/-- A local variable is loaded by its number. -/
theorem action?_load (slot : UInt8) :
    action? pool ⟨pc, .aload, [slot]⟩ = some (.loadReference slot.toNat) := rfl

/-- A call does what the member that it names says. -/
theorem action?_invoke (hop : ins.opcode.isBetween .invokevirtual .invokeinterface = true)
    (hindex : ins.constantIndex = .ok index) {member : MemberRef}
    (hmember : pool.member index = .ok member) :
    ins.action? pool = some (.invoke ins.opcode member) := by
  have hcode (code : Fin 202) :
      Opcode.isBetween ⟨code⟩ .invokevirtual .invokeinterface = true →
        Opcode.isBetween ⟨code⟩ .iconstM1 .iconst5 = false ∧
          Opcode.isBetween ⟨code⟩ .aload0 .aload3 = false ∧
          ∀ op ∈ [Opcode.bipush, .sipush, .ldc, .ldcW, .aload, .pop, .ireturn, .areturn, .vreturn],
            ⟨code⟩ ≠ op := by
    revert code
    decide +kernel
  obtain ⟨hsmall, hshort, hother⟩ := hcode ins.opcode.code hop
  simp only [List.mem_cons, List.not_mem_nil, or_false, forall_eq_or_imp, forall_eq] at hother
  simp [action?, hsmall, hshort, hother, hop, hindex, hmember, Except.toOption]

/-- A dynamic call does what the constant that it names says. -/
theorem action?_invokeDynamic (hop : ins.opcode = .invokedynamic)
    (hindex : ins.constantIndex = .ok index) {call : DynamicCall}
    (hcall : pool.dynamicCall index = .ok call) :
    ins.action? pool = some (.invokeDynamic call) := by
  have haction : ins.action? pool = ins.constantIndex.toOption.bind fun i =>
      (pool.dynamicCall i).toOption.map .invokeDynamic := by
    unfold action?
    rw [hop]
    rfl
  rw [haction, hindex]
  show (pool.dynamicCall index).toOption.map Action.invokeDynamic = _
  rw [hcall]
  rfl

end Action

end Instruction

end Forwarder
