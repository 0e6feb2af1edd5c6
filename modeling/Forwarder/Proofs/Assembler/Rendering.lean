import Forwarder.Assembler.Code
import Forwarder.Proofs.Body
import Forwarder.Proofs.Instruction.Action

/-!
# The instruction of a call

`CodeBuilder.Renders` says which instruction stands for a call of a code builder, in a pool in which
its index is looked up. The instruction is well formed and does what the call asks for
(`Renders.action?_eq`), and what the analysis finds out about it can be read off the call: whether
it loads the first local variable, calls a method without parameters or returns
(`Renders.loadsReceiver_iff`, `Renders.invokesPlainly_iff`, `Renders.isReturn_eq`).
-/

namespace Forwarder

namespace Instruction

/-- The instruction is a well-formed load of a constant that does something in a pool. -/
structure LoadsConstant (pool : ConstantPool) (a : Action) (ins : Instruction) : Prop where
  wellFormed : ins.WellFormed
  opcode_lt : ins.opcode.code < Opcode.iload.code
  action?_eq : ins.action? pool = some a

/-- A two-byte index in front of the operands of an instruction is the index of its constant. -/
theorem constantIndex_ofNat {pc index : Nat} {op : Opcode} {tail : Bytes} (hldc : op ≠ .ldc)
    (hop : op.namesConstant = true) (h : index < Bytes.capacity 2) :
    constantIndex ⟨pc, op, Bytes.ofNat 2 index ++ tail⟩ = .ok index := by
  have hindex : index < 65536 := h
  unfold constantIndex
  rw [if_neg hldc, if_pos hop]
  simp only [Bytes.ofNat, Bytes.capacity, List.cons_append, UInt8.toNat_ofNat', Except.ok.injEq]
  omega

end Instruction

namespace CodeBuilder

/-- A call that the builder is meant for: it loads a local variable that there is, and emits
nothing but instructions. -/
def Call.IsRegular : Call → Prop
  | aload slot => 0 ≤ slot
  | raw _ => False
  | _ => True

/-- Whether a call emits an instruction. -/
def Call.emits : Call → Bool
  | line _ => false
  | _ => true

/-- What the instruction of a call is to do. -/
def Call.action? : Call → Option Instruction.Action
  | iconst value => some (.loadInteger value)
  | ldcString text => some (.loadText text)
  | aload slot => some (.loadReference slot)
  | pop => some .pop
  | ireturn => some .returnInteger
  | areturn => some .returnReference
  | vreturn => some .returnNothing
  | invoke kind owner name descriptor _ _ =>
    some (.invoke kind.opcode ⟨kind.memberKind, owner, name, descriptor⟩)
  | invokeDynamic bootstrap name descriptor _ _ =>
    some (.invokeDynamic ⟨bootstrap, name, descriptor⟩)
  | line _ | raw _ => none

/-- Whether a call is one of a method without parameters on an object. -/
def Call.invokesPlainly : Call → Bool
  | invoke .virtual _ _ descriptor _ _ | invoke .interface _ _ descriptor _ _ =>
    (MethodDescriptor.parse? descriptor).any fun d => d.arity = 0
  | _ => false

/-- Whether a call returns from the method. -/
def Call.returns : Call → Bool
  | ireturn | areturn | vreturn => true
  | _ => false

/-- An instruction stands for a call, in a pool in which its index is looked up. -/
inductive Renders (pool : ConstantPool) : Call → Instruction → Prop where
  | iconst {value : Int} {ins : Instruction} (h : ins.LoadsConstant pool (.loadInteger value)) :
      Renders pool (.iconst value) ins
  | ldcString {text : String} {ins : Instruction} (h : ins.LoadsConstant pool (.loadText text)) :
      Renders pool (.ldcString text) ins
  /-- The first four local variables have opcodes of their own. -/
  | aloadShort {slot : Int} {pc : Nat} {op : Opcode} (hop : op.isBetween .aload0 .aload3 = true)
      (hslot : (op.code : Int) = Opcode.aload0.code + slot) :
      Renders pool (.aload slot) ⟨pc, op, []⟩
  | aload {slot : Int} {pc : Nat} (hlt : 3 < slot) (hbyte : slot < 256) :
      Renders pool (.aload slot) ⟨pc, .aload, [UInt8.ofNat slot.toNat]⟩
  | pop {pc : Nat} : Renders pool .pop ⟨pc, .pop, []⟩
  | ireturn {pc : Nat} : Renders pool .ireturn ⟨pc, .ireturn, []⟩
  | areturn {pc : Nat} : Renders pool .areturn ⟨pc, .areturn, []⟩
  | vreturn {pc : Nat} : Renders pool .vreturn ⟨pc, .vreturn, []⟩
  | invoke {kind : Invoke} {owner name descriptor : String} {arguments results : Int}
      {pc index : Nat} {tail : Bytes} (hindex : index < Bytes.capacity 2)
      (htail : tail.length = if kind = .interface then 2 else 0)
      (hmember : pool.member index = .ok ⟨kind.memberKind, owner, name, descriptor⟩) :
      Renders pool (.invoke kind owner name descriptor arguments results)
        ⟨pc, kind.opcode, Bytes.ofNat 2 index ++ tail⟩
  | invokeDynamic {bootstrap : Int} {name descriptor : String} {arguments results : Int}
      {pc index : Nat} (hindex : index < Bytes.capacity 2)
      (hcall : pool.dynamicCall index = .ok ⟨bootstrap, name, descriptor⟩) :
      Renders pool (.invokeDynamic bootstrap name descriptor arguments results)
        ⟨pc, .invokedynamic, Bytes.ofNat 2 index ++ [0, 0]⟩

section Renders

variable {pool : ConstantPool} {call : Call} {ins : Instruction}

/-- An opcode below the loads of variables is none of those that a body is examined for. -/
theorem constantLoad_code (code : Fin 202) (h : code < Opcode.iload.code) :
    ¬ (⟨code⟩ = Opcode.aload0 ∨ ⟨code⟩ = Opcode.aload) ∧
      ¬ (⟨code⟩ = Opcode.invokevirtual ∨ ⟨code⟩ = Opcode.invokeinterface) ∧
      Opcode.isReturn ⟨code⟩ = false ∧ ⟨code⟩ ≠ Opcode.invokedynamic := by
  revert code
  decide +kernel

/-- A short load of a reference has no operands, and it loads the first variable only if it says so.
-/
theorem shortLoad_code (code : Fin 202) (h : Opcode.isBetween ⟨code⟩ .aload0 .aload3 = true) :
    ¬ Opcode.HasVariableWidth ⟨code⟩ ∧ Opcode.operandWidth ⟨code⟩ = 0 ∧
      (⟨code⟩ = Opcode.aload0 ∨ ⟨code⟩ = Opcode.aload → code = Opcode.aload0.code) ∧
      ¬ (⟨code⟩ = Opcode.invokevirtual ∨ ⟨code⟩ = Opcode.invokeinterface) ∧
      Opcode.isReturn ⟨code⟩ = false ∧ ⟨code⟩ ≠ Opcode.invokedynamic := by
  revert code
  decide +kernel

/-- What a call renders has the operands that its opcode asks for. -/
theorem Renders.wellFormed (h : Renders pool call ins) : ins.WellFormed := by
  cases h with
  | iconst h | ldcString h => exact h.wellFormed
  | @aloadShort slot pc op hop =>
    obtain ⟨hfixed, hwidth, -⟩ := shortLoad_code op.code hop
    exact .fixed hfixed hwidth.symm
  | aload | pop | ireturn | areturn | vreturn => exact .fixed (by decide) rfl
  | @invoke kind _ _ _ _ _ _ _ tail _ htail =>
    refine .fixed (by cases kind <;> decide) ?_
    rw [List.length_append, Bytes.length_ofNat, htail]
    cases kind <;> rfl
  | invokeDynamic => exact .fixed (by decide) rfl

/-- **The instruction of a call does what the call asks for.** -/
theorem Renders.action?_eq (h : Renders pool call ins) : ins.action? pool = call.action? := by
  cases h with
  | iconst h | ldcString h => exact h.action?_eq
  | @aloadShort slot pc op hop hslot =>
    have hslot : (op.code.val : Int) - Opcode.aload0.code.val = slot := by omega
    rw [Instruction.action?_short hop, hslot]
    rfl
  | @aload slot pc hlt hbyte =>
    have hslot : ((UInt8.ofNat slot.toNat).toNat : Int) = slot := by
      rw [UInt8.toNat_ofNat']
      omega
    rw [Instruction.action?_load, hslot]
    rfl
  | pop | ireturn | areturn | vreturn => rfl
  | @invoke kind owner name descriptor arguments results pc index tail hindex htail hmember =>
    have hconstant : Instruction.constantIndex ⟨pc, kind.opcode, Bytes.ofNat 2 index ++ tail⟩ =
        .ok index :=
      Instruction.constantIndex_ofNat (by cases kind <;> decide) (by cases kind <;> decide) hindex
    exact Instruction.action?_invoke (by cases kind <;> rfl) hconstant hmember
  | @invokeDynamic _ _ _ _ _ pc index hindex hcall =>
    have hconstant : Instruction.constantIndex ⟨pc, .invokedynamic, Bytes.ofNat 2 index ++ [0, 0]⟩ =
        .ok index :=
      Instruction.constantIndex_ofNat (by decide) (by decide) hindex
    exact Instruction.action?_invokeDynamic rfl hconstant hcall

/-- The instruction of a call loads the first local variable exactly if the call does. -/
theorem Renders.loadsReceiver_iff (h : Renders pool call ins) :
    ins.LoadsReceiver ↔ call = .aload 0 := by
  have hother (hcall : call ≠ .aload 0) (hop : ¬ (ins.opcode = .aload0 ∨ ins.opcode = .aload)) :
      ins.LoadsReceiver ↔ call = .aload 0 :=
    iff_of_false (fun hloads => hop hloads.opcode_eq) hcall
  cases h with
  | iconst h | ldcString h =>
    exact hother nofun (constantLoad_code ins.opcode.code h.opcode_lt).1
  | @aloadShort slot pc op hop hslot =>
    rw [Call.aload.injEq]
    constructor
    · intro hloads
      have hcode := (shortLoad_code op.code hop).2.2.1 hloads.opcode_eq
      rw [hcode] at hslot
      omega
    · rintro rfl
      have hcode : op.code = Opcode.aload0.code := Fin.ext (by omega)
      obtain rfl : op = .aload0 := congrArg Opcode.mk hcode
      exact ⟨.inl rfl, Instruction.localIndex_short Opcode.aload0.code hop⟩
  | @aload slot pc hlt hbyte =>
    refine iff_of_false (fun hloads => ?_) fun hcall => ?_
    · have hslot : (UInt8.ofNat slot.toNat).toNat = 0 := Except.ok.inj hloads.slot_eq
      rw [UInt8.toNat_ofNat'] at hslot
      omega
    · rw [Call.aload.injEq] at hcall
      omega
  | pop | ireturn | areturn | vreturn | invokeDynamic => exact hother nofun nofun
  | @invoke kind => cases kind <;> exact hother nofun nofun

/-- The instruction of a call calls a method without parameters on an object exactly if the call
says so. -/
theorem Renders.invokesPlainly_iff (h : Renders pool call ins) :
    ins.InvokesPlainly pool ↔ call.invokesPlainly = true := by
  have hother (hcall : call.invokesPlainly = false)
      (hop : ¬ (ins.opcode = .invokevirtual ∨ ins.opcode = .invokeinterface)) :
      ins.InvokesPlainly pool ↔ call.invokesPlainly = true :=
    iff_of_false (fun hinvokes => hop hinvokes.opcode_eq) (by rw [hcall]; exact Bool.false_ne_true)
  cases h with
  | iconst h | ldcString h =>
    exact hother rfl (constantLoad_code ins.opcode.code h.opcode_lt).2.1
  | @aloadShort slot pc op hop => exact hother rfl (shortLoad_code op.code hop).2.2.2.1
  | aload | pop | ireturn | areturn | vreturn | invokeDynamic => exact hother rfl nofun
  | @invoke kind owner name descriptor arguments results pc index tail hindex htail hmember =>
    by_cases hplain : kind = .virtual ∨ kind = .interface
    · have hop : kind.opcode = .invokevirtual ∨ kind.opcode = .invokeinterface :=
        hplain.imp (congrArg Invoke.opcode) (congrArg Invoke.opcode)
      have hconstant : Instruction.constantIndex ⟨pc, kind.opcode, Bytes.ofNat 2 index ++ tail⟩ =
          .ok index :=
        Instruction.constantIndex_ofNat (by cases kind <;> decide) (by cases kind <;> decide) hindex
      have hcall : (Call.invoke kind owner name descriptor arguments results).invokesPlainly =
          (MethodDescriptor.parse? descriptor).any fun d => d.arity = 0 := by
        rcases hplain with rfl | rfl <;> rfl
      rw [hcall, Option.any_eq_true]
      constructor
      · rintro ⟨-, index', member, hindex', hmember', d, hwf, hdescriptor, hnone⟩
        cases hconstant.symm.trans hindex'
        cases hmember.symm.trans hmember'
        exact ⟨d, MethodDescriptor.parse?_eq_some_iff.2 ⟨hwf, hdescriptor⟩,
          by simp [MethodDescriptor.arity, hnone]⟩
      · rintro ⟨d, hd, hzero⟩
        obtain ⟨hwf, hdescriptor⟩ := MethodDescriptor.parse?_eq_some_iff.1 hd
        exact ⟨hop, index, _, hconstant, hmember, d, hwf, hdescriptor,
          List.length_eq_zero_iff.1 (of_decide_eq_true hzero)⟩
    · cases kind with
      | virtual => exact absurd (.inl rfl) hplain
      | interface => exact absurd (.inr rfl) hplain
      | special | static => exact hother rfl (of_decide_eq_false rfl)

/-- The instruction of a call returns exactly if the call does. -/
theorem Renders.isReturn_eq (h : Renders pool call ins) : ins.opcode.isReturn = call.returns := by
  cases h with
  | iconst h | ldcString h => exact (constantLoad_code ins.opcode.code h.opcode_lt).2.2.1
  | @aloadShort slot pc op hop => exact (shortLoad_code op.code hop).2.2.2.2.1
  | aload | pop | ireturn | areturn | vreturn | invokeDynamic => rfl
  | @invoke kind => cases kind <;> rfl

end Renders

end CodeBuilder

end Forwarder
