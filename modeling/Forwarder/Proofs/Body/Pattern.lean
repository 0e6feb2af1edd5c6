import Forwarder.Proofs.Body
import Forwarder.Proofs.Containment

/-!
# The bytes of forwarding bodies

`Body.ForwarderBytes` lists the byte strings that load the first local variable, call the method of
a constant on it and return: two loads, two calls and six returns. A method forwards exactly if its
code begins with such bytes and the constant resolves to a method without parameters
(`forwards_iff_bytes`). These bytes are the three instructions that `Body.Begins` asks for
(`forwarderBytes_iff`), and they are decoded first, whatever stands behind them.
-/

namespace Forwarder

/-- The constant of an index is a member whose descriptor is the text of a method descriptor without
parameters. -/
def ConstantPool.NamesPlainMethod (pool : ConstantPool) (index : Nat) : Prop :=
  ∃ member, pool.member index = .ok member ∧
    ∃ d : MethodDescriptor, d.WellFormed ∧ member.descriptor = d.toString ∧ d.parameters = []

namespace Body

open Instruction (bytesOf)

/-- The bytes load the first local variable, with an opcode of its own or with its slot behind the
opcode. -/
inductive LoadBytes : Bytes → Prop where
  | short : LoadBytes [0x2A]
  | long : LoadBytes [0x19, 0x00]

/-- The bytes call the method of a constant on an object. The index of the constant is `hi` and
`lo`; the call of an interface's method has two more bytes, which may be any. -/
inductive InvokeBytes (hi lo : UInt8) : Bytes → Prop where
  | virtual : InvokeBytes hi lo [0xB6, hi, lo]
  | interface (x y : UInt8) : InvokeBytes hi lo [0xB9, hi, lo, x, y]

/-- The bytes load the first local variable, call the method of the constant `index` on it and
return. -/
inductive ForwarderBytes (index : Nat) : Bytes → Prop where
  | intro {load invoke : Bytes} {hi lo ret : UInt8} (hload : LoadBytes load)
      (hinvoke : InvokeBytes hi lo invoke) (hindex : index = 256 * hi.toNat + lo.toNat)
      (hret : 0xAC ≤ ret ∧ ret ≤ 0xB1) : ForwarderBytes index (load ++ (invoke ++ [ret]))

section Instructions

variable {bs : Bytes} {index : Nat} (pc : Nat)

/-- The bytes of a load of the first local variable are those of an instruction that does so. -/
theorem loadBytes_iff :
    LoadBytes bs ↔
      ∃ ins : Instruction, ins.pc = pc ∧ ins.WellFormed ∧ ins.LoadsReceiver ∧ bs = ins.toBytes := by
  constructor
  · rintro (_ | _)
    · exact ⟨⟨pc, .aload0, []⟩, rfl, .fixed (by decide) rfl, ⟨.inl rfl, by cbv⟩, rfl⟩
    · exact ⟨⟨pc, .aload, [0x00]⟩, rfl, .fixed (by decide) rfl, ⟨.inr rfl, rfl⟩, rfl⟩
  · rintro ⟨ins, -, hwf, ⟨hop, hslot⟩, rfl⟩
    cases hwf with
    | tableSwitch | lookupSwitch | wide => rcases hop with hop | hop <;> cases hop
    | @fixed pc op operands _ hwidth =>
      rcases hop with rfl | rfl
      · obtain rfl := List.length_eq_zero_iff.1 hwidth
        exact .short
      · obtain ⟨slot, rfl⟩ := List.length_eq_one_iff.1 hwidth
        have hzero : slot.toNat = 0 := Except.ok.inj hslot
        obtain rfl : slot = 0 := UInt8.toNat_inj.1 hzero
        exact .long

/-- The bytes of a call on an object are those of an instruction that calls the method of this
constant. -/
theorem invokeBytes_iff :
    (∃ hi lo, InvokeBytes hi lo bs ∧ index = 256 * hi.toNat + lo.toNat) ↔
      ∃ ins : Instruction, ins.pc = pc ∧ ins.WellFormed ∧
        (ins.opcode = .invokevirtual ∨ ins.opcode = .invokeinterface) ∧
        ins.constantIndex = .ok index ∧ bs = ins.toBytes := by
  constructor
  · rintro ⟨hi, lo, _ | ⟨x, y⟩, rfl⟩
    · exact ⟨⟨pc, .invokevirtual, [hi, lo]⟩, rfl, .fixed (by decide) rfl, .inl rfl, rfl, rfl⟩
    · exact ⟨⟨pc, .invokeinterface, [hi, lo, x, y]⟩, rfl, .fixed (by decide) rfl, .inr rfl, rfl,
        rfl⟩
  · rintro ⟨ins, -, hwf, hop, hindex, rfl⟩
    cases hwf with
    | tableSwitch | lookupSwitch | wide => rcases hop with hop | hop <;> cases hop
    | @fixed pc op operands _ hwidth =>
      rcases hop with rfl | rfl
      · obtain ⟨hi, lo, rfl⟩ := List.length_eq_two.1 hwidth
        exact ⟨hi, lo, .virtual, (Except.ok.inj hindex).symm⟩
      · match operands, hwidth with
        | [hi, lo, x, y], _ => exact ⟨hi, lo, .interface x y, (Except.ok.inj hindex).symm⟩

/-- An opcode that returns a value has no operands. -/
theorem isReturn_code (code : Fin 202) (h : Opcode.isReturn ⟨code⟩ = true) :
    ¬ Opcode.HasVariableWidth ⟨code⟩ ∧ Opcode.operandWidth ⟨code⟩ = 0 := by
  revert code
  decide +kernel

/-- The byte of a return is that of an instruction that returns. -/
theorem returnByte_iff :
    (∃ ret : UInt8, bs = [ret] ∧ 0xAC ≤ ret ∧ ret ≤ 0xB1) ↔
      ∃ ins : Instruction, ins.pc = pc ∧ ins.WellFormed ∧ ins.opcode.isReturn = true ∧
        bs = ins.toBytes := by
  have hbounds (op : Opcode) :
      op.isReturn = true ↔ 0xAC ≤ op.toByte.toNat ∧ op.toByte.toNat ≤ 0xB1 := by
    rw [Opcode.isReturn, Opcode.isBetween, Bool.and_eq_true, decide_eq_true_iff,
      decide_eq_true_iff, Fin.le_def, Fin.le_def, Opcode.toNat_toByte]
    rfl
  constructor
  · rintro ⟨ret, rfl, hlow, hhigh⟩
    rw [UInt8.le_iff_toNat_le] at hlow hhigh
    have hlow : 0xAC ≤ ret.toNat := hlow
    have hhigh : ret.toNat ≤ 0xB1 := hhigh
    let op : Opcode := ⟨⟨ret.toNat, by omega⟩⟩
    have hbyte : op.toByte = ret := UInt8.ofNat_toNat
    have hreturn : op.isReturn = true := (hbounds op).2 (hbyte.symm ▸ ⟨hlow, hhigh⟩)
    obtain ⟨hfixed, hwidth⟩ := isReturn_code op.code hreturn
    exact ⟨⟨pc, op, []⟩, rfl, .fixed hfixed hwidth.symm, hreturn,
      by rw [Instruction.toBytes, hbyte]⟩
  · rintro ⟨ins, -, hwf, hreturn, rfl⟩
    obtain ⟨hfixed, hzero⟩ := isReturn_code ins.opcode.code hreturn
    obtain ⟨hlow, hhigh⟩ := (hbounds ins.opcode).1 hreturn
    cases hwf with
    | tableSwitch => exact absurd (.inl rfl) hfixed
    | lookupSwitch => exact absurd (.inr (.inl rfl)) hfixed
    | wide => exact absurd (.inr (.inr rfl)) hfixed
    | @fixed pc op operands _ hwidth =>
      obtain rfl := List.length_eq_zero_iff.1 (hwidth.trans hzero)
      exact ⟨op.toByte, rfl, UInt8.le_iff_toNat_le.2 hlow, UInt8.le_iff_toNat_le.2 hhigh⟩

end Instructions

/-- The bytes of a forwarder are those of three instructions that load the first local variable,
call the method of the constant and return. -/
theorem forwarderBytes_iff {index : Nat} {front : Bytes} :
    ForwarderBytes index front ↔
      ∃ load invoke ret : Instruction, LaidOut 0 [load, invoke, ret] ∧
        (∀ ins ∈ [load, invoke, ret], ins.WellFormed) ∧ load.LoadsReceiver ∧
        (invoke.opcode = .invokevirtual ∨ invoke.opcode = .invokeinterface) ∧
        invoke.constantIndex = .ok index ∧ ret.opcode.isReturn = true ∧
        front = bytesOf [load, invoke, ret] := by
  constructor
  · rintro ⟨hload, hinvoke, hindex, hret⟩
    obtain ⟨load, hpc, hwf, hloads, rfl⟩ := (loadBytes_iff 0).1 hload
    obtain ⟨invoke, hpc', hwf', hop, hindex, rfl⟩ :=
      (invokeBytes_iff load.nextPc).1 ⟨_, _, hinvoke, hindex⟩
    obtain ⟨ret, hpc'', hwf'', hreturns, hbyte⟩ := (returnByte_iff invoke.nextPc).1 ⟨_, rfl, hret⟩
    refine ⟨load, invoke, ret, ⟨hpc, hpc', hpc'', trivial⟩, ?_, hloads, hop, hindex, hreturns, ?_⟩
    · exact List.forall_mem_cons.2 ⟨hwf, List.forall_mem_cons.2
        ⟨hwf', List.forall_mem_singleton.2 hwf''⟩⟩
    · rw [hbyte]
      simp [bytesOf]
  · rintro ⟨load, invoke, ret, -, hwf, hloads, hop, hindex, hreturns, rfl⟩
    obtain ⟨hwf, hwf'⟩ := List.forall_mem_cons.1 hwf
    obtain ⟨hwf', hwf''⟩ := List.forall_mem_cons.1 hwf'
    have hload := (loadBytes_iff load.pc).2 ⟨load, rfl, hwf, hloads, rfl⟩
    obtain ⟨hi, lo, hinvoke, rfl⟩ :=
      (invokeBytes_iff invoke.pc).2 ⟨invoke, rfl, hwf', hop, hindex, rfl⟩
    obtain ⟨byte, hbyte, hret⟩ := (returnByte_iff ret.pc).2
      ⟨ret, rfl, List.forall_mem_singleton.1 hwf'', hreturns, rfl⟩
    have hbytes : bytesOf [load, invoke, ret] = load.toBytes ++ (invoke.toBytes ++ [byte]) := by
      simp [bytesOf, hbyte]
    exact hbytes ▸ .intro hload hinvoke rfl hret

section Forwards

variable {pool : ConstantPool} {m : Method} {code : Code} {index : Nat} {front rest : Bytes}

/-- Behind the bytes of a forwarder nothing is looked at: the method forwards exactly if the
constant resolves to a method without parameters. -/
theorem ForwarderBytes.forwards_iff (h : ForwarderBytes index front) (hcode : m.code = some code)
    (hbytes : code.bytes = front ++ rest) :
    forwards pool m = true ↔ pool.NamesPlainMethod index := by
  obtain ⟨load, invoke, ret, hlaid, hwf, hloads, hop, hindex, hreturns, rfl⟩ :=
    forwarderBytes_iff.1 h
  obtain ⟨more, hmore⟩ := Decoded.exists_instructions_append hwf hlaid rest
  rw [← hbytes] at hmore
  rw [forwards_iff_begins]
  constructor
  · rintro ⟨code', load', invoke', ret', rest', hcode', hbegins⟩
    cases hcode.symm.trans hcode'
    have hinvoke : invoke = invoke' := by
      have hinstrs := hmore.symm.trans hbegins.instructions_eq
      exact (List.cons.inj (List.cons.inj hinstrs).2).1
    obtain ⟨index', member, hindex', hmember, hplain⟩ := hbegins.invokes.resolves
    rw [← hinvoke] at hindex'
    cases hindex.symm.trans hindex'
    exact ⟨member, hmember, hplain⟩
  · rintro ⟨member, hmember, hplain⟩
    exact ⟨code, load, invoke, ret, more, hcode, hmore, hloads,
      ⟨hop, index, member, hindex, hmember, hplain⟩, hreturns⟩

/-- The code of a method that forwards begins with the bytes of a forwarder. -/
theorem exists_forwarderBytes (h : forwards pool m = true) :
    ∃ code index front rest, m.code = some code ∧ code.bytes = front ++ rest ∧
      ForwarderBytes index front ∧ pool.NamesPlainMethod index := by
  obtain ⟨code, load, invoke, ret, rest, hcode, hbegins⟩ := forwards_iff_begins.1 h
  obtain ⟨behind, hbytes, -⟩ := hbegins.exists_bytes_eq
  obtain ⟨index, member, hindex, hmember, hplain⟩ := hbegins.invokes.resolves
  obtain ⟨hwf, hlaid⟩ := hbegins.wellFormed_laidOut
  have hfront : ForwarderBytes index (bytesOf [load, invoke, ret]) :=
    forwarderBytes_iff.2 ⟨load, invoke, ret, hlaid, hwf, hbegins.loads,
      hbegins.invokes.opcode_eq, hindex, hbegins.returns, rfl⟩
  exact ⟨code, index, _, behind, hcode, hbytes, hfront, member, hmember, hplain⟩

end Forwards

/-- **A method forwards exactly if its code begins with the bytes of a forwarder.** A method without
code does not forward. One with code does so exactly if the code begins with a load of the first
local variable, a call of the method of a constant and a return, and the constant resolves to a
method without parameters. What follows these bytes makes no difference, even if it cannot be
decoded, and no body is rejected because an operand of a decoded instruction is missing, which is
the one error that would not be contained. -/
theorem forwards_iff_bytes (pool : ConstantPool) (m : Method) :
    (m.code = none → forwards pool m = false) ∧
    (∀ code, m.code = some code →
      (forwards pool m = true ↔
        ∃ index front rest, code.bytes = front ++ rest ∧ ForwarderBytes index front ∧
          pool.NamesPlainMethod index)) ∧
    (∀ (index : Nat) (front rest rest' : Bytes) (m' : Method) (code code' : Code),
      ForwarderBytes index front → m.code = some code → code.bytes = front ++ rest →
      m'.code = some code' → code'.bytes = front ++ rest' →
      forwards pool m' = forwards pool m) ∧
    ∀ e, examine pool m ≠ some (.cut e) := by
  refine ⟨fun hcode => ?_, fun code hcode => ⟨fun h => ?_, ?_⟩, ?_, fun e => examine_ne_cut m⟩
  · rw [forwards, examine, hcode]
    rfl
  · obtain ⟨code', index, front, rest, hcode', hbytes, hfront, hplain⟩ := exists_forwarderBytes h
    cases hcode.symm.trans hcode'
    exact ⟨index, front, rest, hbytes, hfront, hplain⟩
  · rintro ⟨index, front, rest, hbytes, hfront, hplain⟩
    exact (hfront.forwards_iff hcode hbytes).2 hplain
  · intro index front rest rest' m' code code' hfront hcode hbytes hcode' hbytes'
    rw [Bool.eq_iff_iff, hfront.forwards_iff hcode hbytes, hfront.forwards_iff hcode' hbytes']

/-- The body of `s -> s.length()` forwards, and so it does with a byte behind it that is no opcode;
without code it does not. -/
theorem forwards_iff_bytes_lambda :
    let broken : Method :=
      { Lambda.body with code := some ⟨1, 1, [0x2A, 0xB6, 0, 13, 0xAC, 0xFF], []⟩ }
    let codeless : Method := { Lambda.body with code := none }
    forwards Lambda.pool broken = true ∧
      forwards Lambda.pool Lambda.body = forwards Lambda.pool broken ∧
      forwards Lambda.pool codeless = false := by
  intro broken codeless
  have hfront : ForwarderBytes 13 [0x2A, 0xB6, 0, 13, 0xAC] :=
    .intro .short .virtual rfl (by decide)
  have hplain : Lambda.pool.NamesPlainMethod 13 :=
    ⟨⟨.method, "String", "length", "()I"⟩, by decide, ⟨[], some (.base .int)⟩,
      by simp [MethodDescriptor.WellFormed, FieldType.WellFormed], by decide, rfl⟩
  refine ⟨?_, ?_, (forwards_iff_bytes Lambda.pool codeless).1 rfl⟩
  · exact ((forwards_iff_bytes Lambda.pool broken).2.1 _ rfl).2
      ⟨13, _, [0xFF], rfl, hfront, hplain⟩
  · exact (forwards_iff_bytes Lambda.pool broken).2.2.1 13 _ [0xFF] [] Lambda.body _ _ hfront
      rfl rfl rfl rfl

end Body

end Forwarder
