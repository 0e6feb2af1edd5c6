import Forwarder.Proofs.CallSite.Link
import Forwarder.Proofs.Confirmation

/-!
# Which bodies forward

A body forwards exactly if its first three instructions load the first local variable, call a
method without parameters on it, and return (`Body.forwards_iff_begins`). What stands behind them is
not looked at: a body that forwards is nothing but these three instructions exactly if its code is
their bytes (`Body.Begins.nothing_follows_iff`).
-/

namespace Forwarder

namespace Instruction

/-- The instruction loads the first local variable. -/
structure LoadsReceiver (ins : Instruction) : Prop where
  opcode_eq : ins.opcode = .aload0 ∨ ins.opcode = .aload
  slot_eq : ins.localIndex = .ok 0

/-- The instruction calls a method on an object, whose descriptor is the text of one without
parameters. -/
structure InvokesPlainly (ins : Instruction) (pool : ConstantPool) : Prop where
  opcode_eq : ins.opcode = .invokevirtual ∨ ins.opcode = .invokeinterface
  resolves : ∃ index member, ins.constantIndex = .ok index ∧ pool.member index = .ok member ∧
    ∃ d : MethodDescriptor, d.WellFormed ∧ member.descriptor = d.toString ∧ d.parameters = []

end Instruction

namespace Body

open Instruction (bytesOf)

/-- Instructions begin with a load of the first local variable, a call of a method without
parameters and a return. -/
structure Begins (pool : ConstantPool) (load invoke ret : Instruction) (rest : List Instruction)
    (code : Bytes) : Prop where
  instructions_eq : (Decoded.ofBytes code).instructions = load :: invoke :: ret :: rest
  loads : load.LoadsReceiver
  invokes : invoke.InvokesPlainly pool
  returns : ret.opcode.isReturn = true

section Step

variable {pool : ConstantPool} {ins : Instruction} {instrs : List Instruction}
  {fault : Option Instruction.DecodeFault}

/-- The first examination of an instruction succeeds exactly on a load of the first argument. -/
theorem loadsReceiver_eq_true_iff : loadsReceiver ins = .ok true ↔ ins.LoadsReceiver := by
  unfold loadsReceiver
  constructor
  · intro h
    split at h
    · rename_i hop
      obtain ⟨slot, hslot, h⟩ := except_bind_eq_ok.1 h
      have hzero : slot = 0 := by simpa using Except.ok.inj h
      exact ⟨hop, hzero ▸ mapError_eq_ok.1 hslot⟩
    · cases h
  · rintro ⟨hop, hslot⟩
    rw [if_pos hop]
    exact except_bind_eq_ok.2 ⟨0, mapError_eq_ok.2 hslot, rfl⟩

theorem invokesWithoutArguments_eq_true_iff :
    invokesWithoutArguments pool ins = .ok true ↔ ins.InvokesPlainly pool := by
  unfold invokesWithoutArguments
  constructor
  · intro h
    split at h
    · rename_i hop
      obtain ⟨index, hindex, h⟩ := except_bind_eq_ok.1 h
      obtain ⟨member, hmember, h⟩ := except_bind_eq_ok.1 h
      obtain ⟨d, hd, h⟩ := except_bind_eq_ok.1 h
      obtain ⟨hwf, hdescriptor⟩ := MethodDescriptor.parse_eq_ok.1 (mapError_eq_ok.1 hd)
      have hzero : d.arity = 0 := by simpa using Except.ok.inj h
      exact ⟨hop, index, member, mapError_eq_ok.1 hindex, mapError_eq_ok.1 hmember, d, hwf,
        hdescriptor, List.length_eq_zero_iff.1 hzero⟩
    · cases h
  · rintro ⟨hop, index, member, hindex, hmember, d, hwf, hdescriptor, hnil⟩
    have hparse : MethodDescriptor.parse member.descriptor = .ok d :=
      MethodDescriptor.parse_eq_ok.2 ⟨hwf, hdescriptor⟩
    rw [if_pos hop]
    refine except_bind_eq_ok.2 ⟨index, mapError_eq_ok.2 hindex, ?_⟩
    refine except_bind_eq_ok.2 ⟨member, mapError_eq_ok.2 hmember, ?_⟩
    refine except_bind_eq_ok.2 ⟨d, mapError_eq_ok.2 hparse, ?_⟩
    rw [MethodDescriptor.arity, hnil]
    rfl

/-- Behind the load and the call a body is accepted at a return. -/
theorem follow_invoked_eq_none :
    follow pool .invoked instrs fault = none ↔
      ∃ ret rest, instrs = ret :: rest ∧ ret.opcode.isReturn = true := by
  cases instrs with
  | nil => cases fault <;> simp [follow]
  | cons ins rest => by_cases hreturn : ins.opcode.isReturn = true <;> simp [follow, step, hreturn]

/-- Behind the load a body is accepted at a call of a method without parameters. -/
theorem follow_receiverLoaded_eq_none :
    follow pool .receiverLoaded instrs fault = none ↔
      ∃ invoke rest, instrs = invoke :: rest ∧ invoke.InvokesPlainly pool ∧
        follow pool .invoked rest fault = none := by
  simp only [← invokesWithoutArguments_eq_true_iff]
  cases instrs with
  | nil => cases fault <;> simp [follow]
  | cons ins rest =>
    cases hinvokes : invokesWithoutArguments pool ins with
    | error rejection => simp [follow, step, hinvokes]
    | ok invokes => cases invokes <;> simp [follow, step, hinvokes]

/-- A body is accepted that begins with a load of the first local variable. -/
theorem follow_start_eq_none :
    follow pool .start instrs fault = none ↔
      ∃ load rest, instrs = load :: rest ∧ load.LoadsReceiver ∧
        follow pool .receiverLoaded rest fault = none := by
  simp only [← loadsReceiver_eq_true_iff]
  cases instrs with
  | nil => cases fault <;> simp [follow]
  | cons ins rest =>
    cases hloads : loadsReceiver ins with
    | error rejection => simp [follow, step, hloads]
    | ok loads => cases loads <;> simp [follow, step, hloads]

end Step

section Begins

variable {pool : ConstantPool} {m : Method} {load invoke ret : Instruction}
  {rest : List Instruction} {code : Bytes}

/-- **A body forwards exactly if it begins with a load of the first local variable, a call of a
method without parameters and a return.** -/
theorem forwards_iff_begins :
    forwards pool m = true ↔
      ∃ code load invoke ret rest, m.code = some code ∧
        Begins pool load invoke ret rest code.bytes := by
  rw [Confirmation.forwards_eq_true_iff]
  unfold examine
  cases m.code with
  | none => simp
  | some code =>
    simp only [follow_start_eq_none, follow_receiverLoaded_eq_none, follow_invoked_eq_none]
    constructor
    · rintro ⟨load, _, hinstrs, hloads, invoke, _, rfl, hinvokes, ret, rest, rfl, hreturns⟩
      exact ⟨code, load, invoke, ret, rest, rfl, hinstrs, hloads, hinvokes, hreturns⟩
    · rintro ⟨_, load, invoke, ret, rest, hcode, hinstrs, hloads, hinvokes, hreturns⟩
      cases hcode
      exact ⟨load, _, hinstrs, hloads, invoke, _, rfl, hinvokes, ret, rest, rfl, hreturns⟩

/-- The three instructions that a body begins with are well formed and follow one another. -/
theorem Begins.wellFormed_laidOut (h : Begins pool load invoke ret rest code) :
    (∀ ins ∈ [load, invoke, ret], ins.WellFormed) ∧ LaidOut 0 [load, invoke, ret] := by
  obtain ⟨hwf, hlaid, -⟩ := Decoded.ofCursor_run (.ofBytes code) (Nat.zero_le _)
  have hinstrs : (Decoded.ofCursor (.ofBytes code)).instructions = load :: invoke :: ret :: rest :=
    h.instructions_eq
  rw [hinstrs] at hwf hlaid
  obtain ⟨hload, hinvoke, hret, -⟩ := hlaid
  exact ⟨fun ins hins => hwf ins (List.mem_append_left rest hins), hload, hinvoke, hret, trivial⟩

/-- The bytes of a body that begins so begin with those of its first three instructions. -/
theorem Begins.exists_bytes_eq (h : Begins pool load invoke ret rest code) :
    ∃ behind : Bytes, code = bytesOf [load, invoke, ret] ++ behind ∧
      (behind = [] ↔ rest = [] ∧ (Decoded.ofBytes code).fault = none) := by
  obtain ⟨-, -, c', hadvance, hfault⟩ := Decoded.ofCursor_run (.ofBytes code) (Nat.zero_le _)
  have hinstrs : (Decoded.ofCursor (.ofBytes code)).instructions = load :: invoke :: ret :: rest :=
    h.instructions_eq
  have hsplit : bytesOf (load :: invoke :: ret :: rest) =
      bytesOf [load, invoke, ret] ++ bytesOf rest := by simp [bytesOf]
  have hcode := hadvance.rest_eq
  rw [Cursor.rest_ofBytes, hinstrs, hsplit, List.append_assoc] at hcode
  refine ⟨bytesOf rest ++ c'.rest, hcode, ?_⟩
  rw [List.append_eq_nil_iff, Decoded.ofBytes, hfault]
  have hrest : bytesOf rest = [] ↔ rest = [] := by
    cases rest <;> simp [bytesOf, Instruction.toBytes]
  rw [hrest]

/-- Nothing follows the three instructions exactly if the code is their bytes. -/
theorem Begins.nothing_follows_iff (h : Begins pool load invoke ret rest code) :
    rest = [] ∧ (Decoded.ofBytes code).fault = none ↔ code = bytesOf [load, invoke, ret] := by
  obtain ⟨behind, hcode, hbehind⟩ := h.exists_bytes_eq
  rw [← hbehind, hcode]
  exact List.append_right_eq_self.symm

end Begins

end Body

end Forwarder
