import Forwarder.Proofs.Assembler.Lookup
import Forwarder.Proofs.Assembler.Rendering
import Forwarder.Proofs.Cursor.Reads
import Forwarder.Proofs.Run

/-!
# What the calls of a code builder emit

Every call of a code builder but that for a line emits one instruction, which stands for it
(`CodeBuilder.emits_perform`). `Builds` is a sequence of calls, and `Outline` what it leaves behind:
instructions that follow one another, and the lines between them (`Builds.exists_outline`). So the
code forwards exactly if its calls do (`Outline.forwards_eq`).
-/

namespace Forwarder

open PoolBuilder (Yields)

namespace CodeBuilder

/-! ## What a call emits -/

/-- A computation makes the pool grow and leaves the lines of the code as they are. Its result and
the bytes that it appends have a property, in every extension of the pool behind it. -/
def Emits {α : Type} (m : Emit α) (P : α → Bytes → ConstantPool → Prop) : Prop :=
  ∀ ⦃e a e'⦄, Runs m e a e' → e.pool.Grows e'.pool ∧ e'.code.lines = e.code.lines ∧
    (e.pool.Consistent → ∀ q : PoolBuilder, e'.pool.Extends q →
      ∃ bs, e'.code.code.toList = e.code.code.toList ++ bs ∧ P a bs q.pool)

section Emits

variable {α β : Type} {m : Emit α} {f : α → Emit β} {P P' : α → Bytes → ConstantPool → Prop}
  {Q : α → β → Bytes → ConstantPool → Prop}

/-- A sequence emits what its parts emit, one behind the other. -/
theorem Emits.bind (h : Emits m P) (h' : ∀ a, Emits (f a) (Q a)) :
    Emits (m >>= f) fun b bs pool =>
      ∃ a bs₁ bs₂, bs = bs₁ ++ bs₂ ∧ P a bs₁ pool ∧ Q a b bs₂ pool := by
  intro e b e' hrun
  obtain ⟨a, e₁, hm, hf⟩ := runs_bind_iff.1 hrun
  obtain ⟨hg, hlines, hcode⟩ := h hm
  obtain ⟨hg', hlines', hcode'⟩ := h' a hf
  refine ⟨hg.trans hg', hlines'.trans hlines, fun hp q hq => ?_⟩
  obtain ⟨bs₁, hbs₁, hP⟩ := hcode hp q (hg'.toExtends.trans hq)
  obtain ⟨bs₂, hbs₂, hQ⟩ := hcode' (hg.consistent hp) q hq
  exact ⟨bs₁ ++ bs₂, by rw [hbs₂, hbs₁, List.append_assoc], a, bs₁, bs₂, rfl, hP, hQ⟩

/-- What appends nothing behind a computation leaves its bytes as they are. -/
theorem Emits.bind_nil (h : Emits m P) (h' : ∀ a, Emits (f a) fun _ bs _ => bs = []) :
    Emits (m >>= f) fun _ bs pool => ∃ a, P a bs pool := by
  intro e b e' hrun
  obtain ⟨hg, hlines, hcode⟩ := h.bind h' hrun
  refine ⟨hg, hlines, fun hp q hq => ?_⟩
  obtain ⟨_, hbs, a, bs, _, rfl, hP, rfl⟩ := hcode hp q hq
  exact ⟨bs, by rw [hbs, List.append_nil], a, hP⟩

/-- What is emitted under a condition is emitted under every weaker one. -/
theorem Emits.mono (h : Emits m P) (hP : ∀ a bs pool, P a bs pool → P' a bs pool) :
    Emits m P' := by
  intro e a e' hrun
  obtain ⟨hg, hlines, hcode⟩ := h hrun
  refine ⟨hg, hlines, fun hp q hq => ?_⟩
  obtain ⟨bs, hbs, hbsP⟩ := hcode hp q hq
  exact ⟨bs, hbs, hP a bs q.pool hbsP⟩

theorem emits_ofExcept (x : Except EncodeError α) :
    Emits (ofExcept x) fun a bs _ => x = .ok a ∧ bs = [] := by
  intro e a e' hrun
  obtain ⟨hx, rfl⟩ := runs_ofExcept_iff.1 hrun
  exact ⟨.refl e.pool, rfl, fun _ _ _ => ⟨[], by rw [List.append_nil], hx, rfl⟩⟩

/-- What is added to the pool is looked up again. -/
theorem emits_pooling {m : Pooling α} {P : α → ConstantPool → Prop} (h : Yields m P) :
    Emits (pooling m) fun a bs pool => bs = [] ∧ P a pool := by
  intro e a e' hrun
  obtain ⟨rfl, rfl⟩ := runs_pooling_iff.1 hrun
  obtain ⟨hg, hyields⟩ := h e.pool
  exact ⟨hg, rfl, fun hp q hq => ⟨[], (List.append_nil _).symm, rfl, hyields hp q hq⟩⟩

/-- A change of the accounts appends nothing. -/
theorem emits_change {f : CodeBuilder → CodeBuilder}
    (hf : ∀ b, (f b).code = b.code ∧ (f b).lines = b.lines) :
    Emits (change f) fun _ bs _ => bs = [] := by
  intro e u e' hrun
  obtain rfl := runs_change_iff.1 hrun
  obtain ⟨hcode, hlines⟩ := hf e.code
  exact ⟨.refl e.pool, hlines, fun _ _ _ => ⟨[], by rw [List.append_nil, hcode], rfl⟩⟩

theorem emits_push (count : Int) : Emits (push count) fun _ bs _ => bs = [] :=
  emits_change fun _ => ⟨rfl, rfl⟩

theorem emits_drop (count : Int) : Emits (drop count) fun _ bs _ => bs = [] :=
  emits_change fun _ => ⟨rfl, rfl⟩

/-- The accounts of a call that takes values from the stack and puts others there. -/
theorem emits_drop_push (taken given : Int) :
    Emits (do drop taken; push given) fun _ bs _ => bs = [] :=
  ((emits_drop taken).bind_nil fun _ => emits_push given).mono fun _ _ _ ⟨_, h⟩ => h

/-- Bytes are emitted as they are. -/
theorem emits_emitBytes (bs : Bytes) : Emits (emitBytes bs) fun _ bs' _ => bs' = bs := by
  intro e u e' hrun
  obtain rfl := runs_change_iff.1 hrun
  exact ⟨.refl e.pool, rfl, fun _ _ _ => ⟨bs, by simp, rfl⟩⟩

/-- An opcode is emitted as its byte. -/
theorem emits_emitOpcode (op : Opcode) : Emits (emitOpcode op) fun _ bs _ => bs = [op.toByte] :=
  emits_emitBytes [op.toByte]

/-- A byte is appended that is in the range of bytes. -/
theorem emits_emitByte (i : Int) :
    Emits (emitByte i) fun _ bs _ => 0 ≤ i ∧ i < 256 ∧ bs = [UInt8.ofNat i.toNat] := by
  refine ((emits_ofExcept (Encode.byte i)).bind fun b => emits_emitBytes [b]).mono ?_
  rintro _ _ _ ⟨b, _, _, rfl, ⟨hb, rfl⟩, rfl⟩
  unfold Encode.byte at hb
  split at hb
  · rename_i hi
    cases hb
    exact ⟨hi.1, hi.2, rfl⟩
  · cases hb

/-- A number of two bytes is appended that fits into them. -/
theorem emits_emitU2 (n : Nat) :
    Emits (emitU2 n) fun _ bs _ => n < Bytes.capacity 2 ∧ bs = Bytes.ofNat 2 n := by
  refine ((emits_ofExcept (Encode.u2 n)).bind fun bs => emits_emitBytes bs).mono ?_
  rintro _ _ _ ⟨bs, _, _, rfl, ⟨hbs, rfl⟩, rfl⟩
  obtain ⟨m, hm, hlt, rfl⟩ := Cursor.exists_of_unsigned hbs
  obtain rfl := Int.ofNat.inj hm
  exact ⟨hlt, rfl⟩

/-- Bytes are an instruction of a kind, wherever they stand. -/
def AreInstruction (P : Instruction → Prop) (bs : Bytes) : Prop :=
  ∃ op operands, bs = op.toByte :: operands ∧ ∀ pc, P ⟨pc, op, operands⟩

/-- The opcodes of small numbers have no operands and stand in front of the loads of variables. -/
theorem smallOpcode_code (code : Fin 202)
    (h : Opcode.isBetween ⟨code⟩ .iconstM1 .iconst5 = true) :
    ¬ Opcode.HasVariableWidth ⟨code⟩ ∧ Opcode.operandWidth ⟨code⟩ = 0 ∧
      code < Opcode.iload.code := by
  revert code
  decide +kernel

/-- An instruction of fixed width below the loads of local variables is the load of a constant. -/
theorem areConstantLoad (op : Opcode) {operands : Bytes} {pool : ConstantPool}
    {a : Instruction.Action} (hop : ¬ op.HasVariableWidth)
    (hwidth : operands.length = op.operandWidth) (hlt : op.code < Opcode.iload.code)
    (haction : ∀ pc, Instruction.action? pool ⟨pc, op, operands⟩ = some a) :
    AreInstruction (Instruction.LoadsConstant pool a) (op.toByte :: operands) :=
  ⟨op, operands, rfl, fun pc => ⟨.fixed hop hwidth, hlt, haction pc⟩⟩

/-- The load of an index does what the load of the constant in its slot does. -/
theorem emits_emitConstant (index : Nat) :
    Emits (emitConstant index) fun _ bs pool => ∀ c a, pool.entry index = .ok c →
      Instruction.Action.ofConstant? pool c = some a →
        AreInstruction (Instruction.LoadsConstant pool a) bs := by
  unfold emitConstant
  split
  · rename_i hle
    refine ((emits_emitOpcode .ldc).bind fun _ => emits_emitByte index).mono ?_
    rintro _ _ pool ⟨_, _, _, rfl, rfl, -, -, rfl⟩ c a hc ha
    refine areConstantLoad .ldc (by decide) rfl (by decide) fun pc => ?_
    have hindex : (UInt8.ofNat (index : Int).toNat).toNat = index := by
      rw [UInt8.toNat_ofNat']
      omega
    exact Instruction.action?_constant (.inl rfl) (congrArg Except.ok hindex) hc ha
  · refine ((emits_emitOpcode .ldcW).bind fun _ => emits_emitU2 index).mono ?_
    rintro _ _ pool ⟨_, _, _, rfl, rfl, hlt, rfl⟩ c a hc ha
    refine areConstantLoad .ldcW (by decide) rfl (by decide) fun pc => ?_
    have hindex : Instruction.constantIndex ⟨pc, .ldcW, Bytes.ofNat 2 index ++ []⟩ = .ok index :=
      Instruction.constantIndex_ofNat (by decide) (by decide) hlt
    exact Instruction.action?_constant (.inr rfl) hindex hc ha

/-- An integer is loaded by the instruction that is appended for it. -/
theorem emits_emitInteger (value : Int) :
    Emits (emitInteger value) fun _ bs pool =>
      AreInstruction (Instruction.LoadsConstant pool (.loadInteger value)) bs := by
  have hindex := emits_pooling (PoolBuilder.yields_intern (c := .integer value) nofun)
  have hzero : Opcode.iconst0.code.val = 3 := rfl
  unfold emitInteger
  split
  · rename_i hvalue
    refine (emits_emitOpcode .iconstM1).mono ?_
    rintro _ _ _ rfl
    refine areConstantLoad .iconstM1 (by decide) rfl (by decide) fun pc => ?_
    rw [hvalue, Instruction.action?_small (by decide)]
    rfl
  split
  · rename_i hvalue
    refine (emits_emitByte _).mono ?_
    rintro _ _ _ ⟨-, -, rfl⟩
    -- the opcodes of small integers follow one another
    let op : Opcode := ⟨⟨(Opcode.iconst0.code + value).toNat, by omega⟩⟩
    have hcode : (op.code.val : Int) = Opcode.iconst0.code + value := Int.toNat_of_nonneg (by omega)
    have hsmall : op.isBetween .iconstM1 .iconst5 = true := by
      have hfirst : Opcode.iconstM1.code.val = 2 := rfl
      have hlast : Opcode.iconst5.code.val = 8 := rfl
      rw [Opcode.isBetween, Bool.and_eq_true, decide_eq_true_iff, decide_eq_true_iff, Fin.le_def,
        Fin.le_def]
      omega
    obtain ⟨hop, hwidth, hlt⟩ := smallOpcode_code op.code hsmall
    have hvalue : (op.code.val : Int) - Opcode.iconst0.code.val = value := by omega
    refine areConstantLoad op hop hwidth.symm hlt fun pc => ?_
    rw [Instruction.action?_small hsmall, hvalue]
  split
  · rename_i hvalue
    refine (emits_emitBytes _).mono ?_
    rintro _ _ _ rfl
    refine areConstantLoad .bipush (by decide) (Bytes.length_ofNat ..) (by decide) fun pc => ?_
    have hcapacity : (Bytes.capacity 1 : Int) = 256 := rfl
    rw [Instruction.action?_immediate (.inl rfl), Bytes.toInt_ofInt (by omega) (by omega)]
  split
  · rename_i hvalue
    refine (emits_emitBytes _).mono ?_
    rintro _ _ _ rfl
    refine areConstantLoad .sipush (by decide) (Bytes.length_ofNat ..) (by decide) fun pc => ?_
    have hcapacity : (Bytes.capacity 2 : Int) = 65536 := rfl
    rw [Instruction.action?_immediate (.inr rfl), Bytes.toInt_ofInt (by omega) (by omega)]
  · refine (hindex.bind fun index => emits_emitConstant index).mono ?_
    rintro _ _ _ ⟨_, _, _, rfl, ⟨rfl, hentry⟩, h⟩
    exact h _ _ hentry rfl

/-- **A regular call that emits appends its instruction.** -/
theorem emits_perform {call : Call} (hregular : call.IsRegular) (hemits : call.emits = true) :
    Emits call.perform fun _ bs pool => AreInstruction (Renders pool call) bs := by
  cases call with
  | line number => cases hemits
  | raw bs => exact hregular.elim
  | iconst value =>
    refine ((emits_emitInteger value).bind_nil fun _ => emits_push 1).mono ?_
    rintro _ _ _ ⟨-, op, operands, rfl, h⟩
    exact ⟨op, operands, rfl, fun pc => .iconst (h pc)⟩
  | ldcString text =>
    refine ((emits_pooling ((PoolBuilder.yields_utf8 text).bind fun i =>
      PoolBuilder.yields_intern (c := .string i) nofun)).bind fun index =>
        (emits_emitConstant index).bind_nil fun _ => emits_push 1).mono ?_
    rintro _ _ pool ⟨_, _, _, rfl, ⟨rfl, i, htext, hentry⟩, -, hload⟩
    have htext : Instruction.Action.ofConstant? pool (.string i) = some (.loadText text) := by
      rw [Instruction.Action.ofConstant?, htext]
      rfl
    obtain ⟨op, operands, rfl, h⟩ := hload _ _ hentry htext
    exact ⟨op, operands, rfl, fun pc => .ldcString (h pc)⟩
  | aload slot =>
    have hnonneg : 0 ≤ slot := hregular
    have hlocals : Emits (change fun b => { b with maxLocals := max b.maxLocals (slot + 1) })
        fun _ bs _ => bs = [] := emits_change fun _ => ⟨rfl, rfl⟩
    have haccounts := (hlocals.bind_nil fun _ => emits_push 1).mono fun _ _ _ ⟨_, h⟩ => h
    unfold Call.perform
    by_cases hshort : slot ≤ 3
    · have haload : Opcode.aload0.code.val = 42 := rfl
      let op : Opcode := ⟨⟨(Opcode.aload0.code + slot).toNat, by omega⟩⟩
      have hslot : (op.code : Int) = Opcode.aload0.code + slot := Int.toNat_of_nonneg (by omega)
      have hop : op.isBetween .aload0 .aload3 = true := by
        have haload3 : Opcode.aload3.code.val = 45 := rfl
        rw [Opcode.isBetween, Bool.and_eq_true, decide_eq_true_iff, decide_eq_true_iff,
          Fin.le_def, Fin.le_def]
        omega
      simp only [if_pos hshort]
      refine ((emits_emitByte _).bind_nil fun _ => haccounts).mono ?_
      rintro _ _ _ ⟨-, -, -, rfl⟩
      exact ⟨op, [], rfl, fun _ => .aloadShort hop hslot⟩
    · simp only [if_neg hshort]
      refine ((emits_emitOpcode .aload).bind fun _ =>
        (emits_emitByte slot).bind_nil fun _ => haccounts).mono ?_
      rintro _ _ _ ⟨-, _, _, rfl, rfl, -, -, hbyte, rfl⟩
      exact ⟨.aload, [UInt8.ofNat slot.toNat], rfl, fun _ => .aload (by omega) hbyte⟩
  | pop =>
    refine ((emits_emitOpcode .pop).bind_nil fun _ => emits_drop 1).mono ?_
    rintro _ _ _ ⟨-, rfl⟩
    exact ⟨.pop, [], rfl, fun _ => .pop⟩
  | ireturn =>
    refine ((emits_emitOpcode .ireturn).bind_nil fun _ => emits_drop 1).mono ?_
    rintro _ _ _ ⟨-, rfl⟩
    exact ⟨.ireturn, [], rfl, fun _ => .ireturn⟩
  | areturn =>
    refine ((emits_emitOpcode .areturn).bind_nil fun _ => emits_drop 1).mono ?_
    rintro _ _ _ ⟨-, rfl⟩
    exact ⟨.areturn, [], rfl, fun _ => .areturn⟩
  | vreturn =>
    refine (emits_emitOpcode .vreturn).mono ?_
    rintro _ _ _ rfl
    exact ⟨.vreturn, [], rfl, fun _ => .vreturn⟩
  | invoke kind owner name descriptor arguments results =>
    have hindex := emits_pooling (PoolBuilder.yields_member kind.memberKind owner name descriptor)
    have haccounts := emits_drop_push (kind.receivers + arguments) results
    unfold Call.perform
    by_cases hkind : kind = .interface
    · simp only [if_pos hkind]
      refine (hindex.bind fun index => (emits_emitOpcode kind.opcode).bind fun _ =>
        (emits_emitU2 index).bind fun _ => (emits_emitByte (arguments + 1)).bind fun _ =>
          (emits_emitByte 0).bind_nil fun _ => haccounts).mono ?_
      rintro _ _ _ ⟨index, _, _, rfl, ⟨rfl, hmember⟩, -, _, _, rfl, rfl, -, _, _, rfl, ⟨hlt, rfl⟩,
        -, _, _, rfl, ⟨-, -, rfl⟩, -, -, -, rfl⟩
      exact ⟨kind.opcode, _, rfl, fun _ => .invoke hlt (by rw [if_pos hkind]; rfl) hmember⟩
    · simp only [if_neg hkind]
      refine (hindex.bind fun index => (emits_emitOpcode kind.opcode).bind fun _ =>
        (emits_emitU2 index).bind_nil fun _ => haccounts).mono ?_
      rintro _ _ _ ⟨index, _, _, rfl, ⟨rfl, hmember⟩, -, _, _, rfl, rfl, -, hlt, rfl⟩
      have hoperands : Bytes.ofNat 2 index = Bytes.ofNat 2 index ++ [] := (List.append_nil _).symm
      refine ⟨kind.opcode, _, congrArg (kind.opcode.toByte :: ·) hoperands, fun _ => ?_⟩
      exact .invoke hlt (by rw [if_neg hkind]; rfl) hmember
  | invokeDynamic bootstrap name descriptor arguments results =>
    have hindex := emits_pooling (PoolBuilder.yields_invokeDynamic bootstrap name descriptor)
    refine (hindex.bind fun index => (emits_emitOpcode .invokedynamic).bind fun _ =>
      (emits_emitU2 index).bind fun _ => (emits_emitBytes [0, 0]).bind_nil fun _ =>
        emits_drop_push arguments results).mono ?_
    rintro _ _ _ ⟨index, _, _, rfl, ⟨rfl, hcall⟩, -, _, _, rfl, rfl, -, _, _, rfl, ⟨hlt, rfl⟩,
      -, rfl⟩
    exact ⟨.invokedynamic, Bytes.ofNat 2 index ++ [0, 0], rfl, fun _ => .invokeDynamic hlt hcall⟩

end Emits

/-! ## What a sequence of calls leaves behind -/

/-- A sequence of calls succeeds, one after the other. -/
inductive Builds : List Call → Emission → Emission → Prop where
  | nil {e : Emission} : Builds [] e e
  | cons {call : Call} {calls : List Call} {e e₁ e' : Emission} (hcall : Runs call.perform e () e₁)
      (hrest : Builds calls e₁ e') : Builds (call :: calls) e e'

/-- Calls from an offset on leave instructions that follow one another, and lines. -/
inductive Outline (pool : ConstantPool) :
    (pc : Nat) → List Call → List Instruction → List LineEntry → Prop where
  | nil {pc : Nat} : Outline pool pc [] [] []
  | line {pc : Nat} {number : Int} {calls : List Call} {instrs : List Instruction}
      {lines : List LineEntry} (hrest : Outline pool pc calls instrs lines) :
      Outline pool pc (.line number :: calls) instrs (⟨pc, number⟩ :: lines)
  | emit {pc : Nat} {call : Call} {calls : List Call} {ins : Instruction}
      {instrs : List Instruction} {lines : List LineEntry} (hemits : call.emits = true)
      (hpc : ins.pc = pc) (hins : Renders pool call ins)
      (hrest : Outline pool ins.nextPc calls instrs lines) :
      Outline pool pc (call :: calls) (ins :: instrs) lines

/-- Whether the first three instructions that calls emit load the first local variable, call a
method without parameters on it and return. -/
def forwards (calls : List Call) : Bool :=
  match calls.filter Call.emits with
  | load :: invoke :: ret :: _ => load = .aload 0 && invoke.invokesPlainly && ret.returns
  | _ => false

section Outline

open Instruction (bytesOf)

variable {pool : ConstantPool} {pc : Nat} {calls : List Call} {instrs : List Instruction}
  {lines : List LineEntry} {e e' : Emission}

/-- The instructions of an outline stand one behind the other. -/
theorem Outline.laidOut (h : Outline pool pc calls instrs lines) : LaidOut pc instrs := by
  induction h with
  | nil => trivial
  | line _ ih => exact ih
  | emit _ hpc _ _ ih => exact ⟨hpc, ih⟩

/-- The instructions that calls leave stand for those that emit one. -/
theorem Outline.renders (h : Outline pool pc calls instrs lines) :
    List.Forall₂ (Renders pool) (calls.filter Call.emits) instrs := by
  induction h with
  | nil => exact .nil
  | line _ ih => exact ih
  | emit hemits _ hins _ ih =>
    rw [List.filter_cons_of_pos hemits]
    exact .cons hins ih

/-- Every instruction of an outline has the operands that its opcode asks for. -/
theorem Outline.wellFormed (h : Outline pool pc calls instrs lines) :
    ∀ ins ∈ instrs, ins.WellFormed := by
  induction h with
  | nil => exact nofun
  | line _ ih => exact ih
  | emit _ _ hins _ ih => exact List.forall_mem_cons.2 ⟨hins.wellFormed, ih⟩

/-- The instructions that calls leave are decoded from their bytes. -/
theorem Outline.decoded (h : Outline pool 0 calls instrs lines) :
    Decoded.ofBytes (bytesOf instrs) = ⟨instrs, none⟩ :=
  Decoded.ofBytes_bytesOf h.wellFormed h.laidOut

/-- A method whose code calls have left forwards exactly if the calls do. -/
theorem Outline.forwards_eq {m : Method} {code : Code} (h : Outline pool 0 calls instrs lines)
    (hcode : m.code = some code) (hbytes : code.bytes = bytesOf instrs) :
    Body.forwards pool m = forwards calls := by
  have hdecoded : (Decoded.ofBytes code.bytes).instructions = instrs := by rw [hbytes, h.decoded]
  have hrenders := h.renders
  rw [Bool.eq_iff_iff, Body.forwards_iff_begins]
  unfold forwards
  constructor
  · rintro ⟨_, load, invoke, ret, rest, hcode', hbegins⟩
    cases hcode.symm.trans hcode'
    have hinstrs := hdecoded.symm.trans hbegins.instructions_eq
    rw [hinstrs] at hrenders
    generalize calls.filter Call.emits = emitted at hrenders
    obtain - | ⟨hload, - | ⟨hinvoke, - | ⟨hret, hrest⟩⟩⟩ := hrenders
    rw [Bool.and_eq_true, Bool.and_eq_true, decide_eq_true_iff]
    exact ⟨⟨hload.loadsReceiver_iff.1 hbegins.loads, hinvoke.invokesPlainly_iff.1 hbegins.invokes⟩,
      hret.isReturn_eq.symm.trans hbegins.returns⟩
  · intro hforwards
    split at hforwards
    · rename_i load invoke ret rest hemitted
      rw [hemitted] at hrenders
      obtain - | ⟨hload, - | ⟨hinvoke, - | ⟨hret, hrest⟩⟩⟩ := hrenders
      rw [Bool.and_eq_true, Bool.and_eq_true, decide_eq_true_iff] at hforwards
      obtain ⟨⟨hloads, hinvokes⟩, hreturns⟩ := hforwards
      exact ⟨code, _, _, _, _, hcode, hdecoded, hload.loadsReceiver_iff.2 hloads,
        hinvoke.invokesPlainly_iff.2 hinvokes, hret.isReturn_eq.trans hreturns⟩
    · cases hforwards

/-- One call after which others leave an outline leaves an outline together with them. -/
theorem exists_outline_of_call {call : Call} {e₁ : Emission} (hregular : call.IsRegular)
    (h : Runs call.perform e () e₁) (hp : e.pool.Consistent) :
    e.pool.Grows e₁.pool ∧ ∀ q : PoolBuilder, e₁.pool.Extends q → ∃ head headLines,
      e₁.code.code.toList = e.code.code.toList ++ bytesOf head ∧
      e₁.code.lines.toList = e.code.lines.toList ++ headLines ∧
      ∀ ⦃calls instrs lines⦄, Outline q.pool e₁.code.position calls instrs lines →
        Outline q.pool e.code.position (call :: calls) (head ++ instrs) (headLines ++ lines) := by
  by_cases hemits : call.emits = true
  · obtain ⟨hg, hlines, hcode⟩ := emits_perform hregular hemits h
    refine ⟨hg, fun q hq => ?_⟩
    obtain ⟨bs, hbs, op, operands, rfl, hins⟩ := hcode hp q hq
    have hnext : e₁.code.position = Instruction.nextPc ⟨e.code.position, op, operands⟩ := by
      rw [position, ← Array.length_toList, hbs, List.length_append, List.length_cons,
        Array.length_toList]
      show e.code.position + _ = e.code.position + 1 + operands.length
      omega
    refine ⟨[⟨e.code.position, op, operands⟩], [], ?_, ?_, fun calls instrs lines hrest => ?_⟩
    · rw [hbs]
      simp [bytesOf, Instruction.toBytes]
    · rw [hlines, List.append_nil]
    · rw [hnext] at hrest
      exact .emit hemits rfl (hins _) hrest
  · cases call with
    | line number =>
      obtain rfl := runs_line_iff.1 h
      refine ⟨.refl e.pool, fun q _ => ⟨[], [⟨e.code.position, number⟩], ?_, ?_, ?_⟩⟩
      · simp [bytesOf]
      · simp
      · intro calls instrs lines hrest
        exact .line hrest
    | _ => exact absurd rfl hemits

/-- **A sequence of regular calls leaves an outline**, in every extension of the pool behind it. -/
theorem Builds.exists_outline (h : Builds calls e e') (hregular : ∀ call ∈ calls, call.IsRegular)
    (hp : e.pool.Consistent) :
    e.pool.Grows e'.pool ∧ ∀ q : PoolBuilder, e'.pool.Extends q → ∃ instrs lines,
      e'.code.code.toList = e.code.code.toList ++ bytesOf instrs ∧
      e'.code.lines.toList = e.code.lines.toList ++ lines ∧
      Outline q.pool e.code.position calls instrs lines := by
  induction h with
  | @nil e => exact ⟨.refl e.pool, fun _ _ => ⟨[], [], by simp [bytesOf], by simp, .nil⟩⟩
  | @cons call calls e e₁ e' hcall _ ih =>
    obtain ⟨hcallRegular, hregular⟩ := List.forall_mem_cons.1 hregular
    obtain ⟨hg, hhead⟩ := exists_outline_of_call hcallRegular hcall hp
    obtain ⟨hg', htail⟩ := ih hregular (hg.consistent hp)
    refine ⟨hg.trans hg', fun q hq => ?_⟩
    obtain ⟨head, headLines, hcode, hlines, houtline⟩ := hhead q (hg'.toExtends.trans hq)
    obtain ⟨instrs, lines, hcode', hlines', hrest⟩ := htail q hq
    refine ⟨head ++ instrs, headLines ++ lines, ?_, ?_, houtline hrest⟩
    · rw [hcode', hcode, List.append_assoc, bytesOf, bytesOf, bytesOf, List.flatMap_append]
    · rw [hlines', hlines, List.append_assoc]

end Outline

end CodeBuilder

end Forwarder
