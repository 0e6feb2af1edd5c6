import Forwarder.Proofs.Assembler.Emission

/-!
# Code is decoded as it was asked for

The code that calls of a code builder leave is decoded to one instruction for each of them, at the
offset at which the builder stood, and the instruction does what the call asked for, in the pool
behind all calls and in every later one (`decoded_as_asked`). One call in its place is
`Builds.exists_instruction`.
-/

namespace Forwarder

/-- The instructions behind one start where its bytes end. -/
theorem Instruction.nextPc_add_length (ins : Instruction) (instrs : List Instruction) :
    ins.nextPc + (bytesOf instrs).length = ins.pc + (bytesOf (ins :: instrs)).length := by
  simp only [nextPc, bytesOf, toBytes, List.flatMap_cons, List.length_append, List.length_cons]
  omega

/-- Instructions follow one another exactly if a first part of them do and the others go on behind
the bytes of these. -/
theorem laidOut_append_iff {pc : Nat} {head tail : List Instruction} :
    LaidOut pc (head ++ tail) ↔
      LaidOut pc head ∧ LaidOut (pc + (Instruction.bytesOf head).length) tail := by
  induction head generalizing pc with
  | nil => simp [LaidOut, Instruction.bytesOf]
  | cons ins head ih =>
    rw [List.cons_append, LaidOut, LaidOut, ih, and_assoc, ins.nextPc_add_length]
    exact and_congr_right fun h => by rw [h]

namespace CodeBuilder

open Instruction (bytesOf)

section Builds

variable {calls before behind : List Call} {call : Call} {e e₁ e' : Emission}

/-- Some calls and then others build what the others build on what the first leave. -/
theorem builds_append_iff :
    Builds (before ++ behind) e e' ↔ ∃ e₁, Builds before e e₁ ∧ Builds behind e₁ e' := by
  induction before generalizing e with
  | nil =>
    refine ⟨fun h => ⟨e, .nil, h⟩, ?_⟩
    rintro ⟨_, ⟨⟩, h⟩
    exact h
  | cons call before ih =>
    constructor
    · rintro (- | ⟨hcall, hrest⟩)
      obtain ⟨e₁, hbefore, hbehind⟩ := ih.1 hrest
      exact ⟨e₁, .cons hcall hbefore, hbehind⟩
    · rintro ⟨e₁, - | ⟨hcall, hbefore⟩, hbehind⟩
      exact .cons hcall (ih.2 ⟨e₁, hbefore, hbehind⟩)

variable {p q : PoolBuilder} {maxLocals : Int}

/-- The code of regular calls is decoded to their instructions, in every extension of the pool. -/
theorem Builds.exists_decoded (h : Builds calls ⟨p, .empty maxLocals⟩ e')
    (hregular : ∀ call ∈ calls, call.IsRegular) (hp : p.Consistent) (hq : e'.pool.Extends q) :
    ∃ instrs lines, Decoded.ofBytes e'.code.code.toList = ⟨instrs, none⟩ ∧
      e'.code.code.toList = bytesOf instrs ∧ Outline q.pool 0 calls instrs lines := by
  obtain ⟨-, houtline⟩ := h.exists_outline hregular hp
  obtain ⟨instrs, lines, hcode, -, houtline⟩ := houtline q hq
  have hcode : e'.code.code.toList = bytesOf instrs := hcode
  exact ⟨instrs, lines, by rw [hcode, houtline.decoded], hcode, houtline⟩

/-- A call that emits has an instruction, behind those of the calls before it and at the offset at
which these leave the builder. -/
theorem Builds.exists_instruction (hbefore : Builds before ⟨p, .empty maxLocals⟩ e₁)
    (hbehind : Builds (call :: behind) e₁ e')
    (hregular : ∀ c ∈ before ++ call :: behind, c.IsRegular) (hemits : call.emits = true)
    (hp : p.Consistent) (hq : e'.pool.Extends q) :
    ∃ ins, (Decoded.ofBytes e'.code.code.toList).instructions[(before.filter Call.emits).length]? =
        some ins ∧ ins.pc = e₁.code.position ∧ ins.action? q.pool = call.action? := by
  obtain ⟨hregular, hregular'⟩ := List.forall_mem_append.1 hregular
  obtain ⟨hg, -⟩ := hbefore.exists_outline hregular hp
  obtain ⟨hg', houtline⟩ := hbehind.exists_outline hregular' (hg.consistent hp)
  obtain ⟨head, _, -, hcode, hhead⟩ :=
    hbefore.exists_decoded hregular hp (hg'.toExtends.trans hq)
  obtain ⟨tail, _, hcode', -, htail⟩ := houtline q hq
  have hposition : e₁.code.position = (bytesOf head).length := by
    rw [position, ← Array.length_toList, hcode]
  have hlaid : LaidOut 0 (head ++ tail) :=
    laidOut_append_iff.2 ⟨hhead.laidOut, by rw [Nat.zero_add, ← hposition]; exact htail.laidOut⟩
  have hwf : ∀ ins ∈ head ++ tail, ins.WellFormed :=
    List.forall_mem_append.2 ⟨hhead.wellFormed, htail.wellFormed⟩
  have hbytes : e'.code.code.toList = bytesOf (head ++ tail) := by
    rw [hcode', hcode, bytesOf, bytesOf, bytesOf, List.flatMap_append]
  rw [hbytes, Decoded.ofBytes_bytesOf hwf hlaid, hhead.renders.length_eq]
  cases htail with
  | line => cases hemits
  | emit _ hpc hins _ => exact ⟨_, by simp, hpc, hins.action?_eq⟩

end Builds

/-- **Code is decoded as it was asked for.** Regular calls that succeed on code that is begun, over
a pool that holds any constants, leave code that is decoded without a fault, to one instruction for
each call that emits. The instruction of a call stands at the offset at which the calls before it
leave the builder, and does what the call asks for in the pool that all calls leave, whatever is
added to it later. -/
theorem decoded_as_asked {constants : List Constant} {calls : List Call} {maxLocals : Int}
    {e' : Emission} (hregular : ∀ call ∈ calls, call.IsRegular)
    (h : Builds calls ⟨PoolBuilder.empty.internAll constants, .empty maxLocals⟩ e') :
    ∃ instrs, Decoded.ofBytes e'.code.code.toList = ⟨instrs, none⟩ ∧
      instrs.length = (calls.filter Call.emits).length ∧
      ∀ before call behind, calls = before ++ call :: behind → call.emits = true →
        ∃ e ins, Builds before ⟨PoolBuilder.empty.internAll constants, .empty maxLocals⟩ e ∧
          instrs[(before.filter Call.emits).length]? = some ins ∧ ins.pc = e.code.position ∧
          ∀ later : List Constant,
            ins.action? (e'.pool.internAll later).pool = call.action? := by
  have hp := PoolBuilder.consistent_internAll constants
  obtain ⟨instrs, lines, hdecoded, -, houtline⟩ := h.exists_decoded hregular hp (.refl _)
  refine ⟨instrs, hdecoded, houtline.renders.length_eq.symm, ?_⟩
  rintro before call behind rfl hemits
  obtain ⟨e, hbefore, hbehind⟩ := builds_append_iff.1 h
  have hinstruction (later : List Constant) :=
    hbefore.exists_instruction hbehind hregular hemits hp
      (PoolBuilder.extends_internAll e'.pool later)
  rw [hdecoded] at hinstruction
  obtain ⟨ins, hins, hpc, -⟩ := hinstruction []
  refine ⟨e, ins, hbefore, hins, hpc, fun later => ?_⟩
  -- the instruction is the same one for every pool
  obtain ⟨ins', hins', -, haction⟩ := hinstruction later
  cases hins.symm.trans hins'
  exact haction

namespace Greeting

open PoolBuilder (intern_take intern_take_of_lt run_bind)

/-- The constants of a load of a text. -/
def constants : List Constant := [.utf8 "hello", .string 1]

theorem nodup_constants : constants.Nodup := by decide +kernel

theorem narrow_constants : ∀ c ∈ constants, c.cells.length = 1 := by decide

/-- A pool that the text has been interned in. -/
theorem internAll_eq :
    PoolBuilder.empty.internAll [.utf8 "hello"] = .ofList (constants.take 1) :=
  congrArg Prod.snd (intern_take nodup_constants narrow_constants rfl (n := 0))

/-- The text that is there is not added again, the string behind it is. -/
theorem string_eq : PoolBuilder.string "hello" (.ofList (constants.take 1)) =
    (2, .ofList (constants.take 2)) :=
  run_bind (intern_take_of_lt nodup_constants narrow_constants rfl Nat.one_pos)
    (intern_take nodup_constants narrow_constants rfl)

/-- The code that loads the text. -/
def emission : Emission := ⟨.ofList (constants.take 2), ⟨#[0x57, 0x12, 2, 0xB0], 0, 0, -1, #[]⟩⟩

/-- The load of a string adds it to the pool and is emitted with its index. -/
theorem runs_ldcString : Runs (Call.ldcString "hello").perform
    ⟨.ofList (constants.take 1), ⟨#[0x57], 0, 0, -1, #[]⟩⟩ ()
    ⟨.ofList (constants.take 2), ⟨#[0x57, 0x12, 2], 0, 0, 0, #[]⟩⟩ :=
  (runs_pooling _ string_eq).bind rfl

/-- A byte that is there, the load of a text and a return build the code. -/
theorem builds : Builds [.pop, .ldcString "hello", .areturn]
    ⟨PoolBuilder.empty.internAll [.utf8 "hello"], .empty 0⟩ emission := by
  rw [internAll_eq]
  exact .cons rfl (.cons runs_ldcString (.cons rfl .nil))

end Greeting

/-- A text that is in the pool is loaded by the second instruction of a code, behind a byte. -/
theorem decoded_as_asked_greeting :
    ∃ instrs ins, Decoded.ofBytes [0x57, 0x12, 2, 0xB0] = ⟨instrs, none⟩ ∧ instrs.length = 3 ∧
      instrs[1]? = some ins ∧ ins.pc = 1 ∧
      ins.action? Greeting.emission.pool.pool = some (.loadText "hello") := by
  have hregular : ∀ call ∈ [Call.pop, .ldcString "hello", .areturn], call.IsRegular := by
    simp [Call.IsRegular]
  obtain ⟨instrs, hdecoded, hlength, hall⟩ := decoded_as_asked hregular Greeting.builds
  obtain ⟨e, ins, hbefore, hins, hpc, haction⟩ := hall [.pop] _ [.areturn] rfl rfl
  obtain - | ⟨hpop, ⟨⟩⟩ := hbefore
  have hposition : 1 = e.code.position := congrArg (fun r => r.2.code.position) hpop
  exact ⟨instrs, ins, hdecoded, hlength, hins, hpc.trans hposition.symm, haction []⟩

end CodeBuilder

end Forwarder
