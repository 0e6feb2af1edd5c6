import Forwarder.Proofs.Instruction.WellFormed

/-!
# Decoding is a bijection with well-formed code

`Decoded.ofBytes` and the concatenation of instruction bytes are inverse to each other on sequences
of well-formed instructions that follow one another from offset 0 (`decoding_bijective`). The step
lemma is `Instruction.read_eq_ok_iff`; `ofCursor_run` and `ofCursor_append` carry it over a whole
code, the first one for any bytes, the second one for the bytes of given instructions.
`contains_eq` ties the search for an opcode to the decoded instructions.
-/

namespace Forwarder

/-- Instructions that follow one another from an offset on. -/
def LaidOut : (pc : Nat) → List Instruction → Prop
  | _, [] => True
  | pc, ins :: rest => ins.pc = pc ∧ LaidOut ins.nextPc rest

/-- The bytes of some instructions. -/
def Instruction.bytesOf (instrs : List Instruction) : Bytes := instrs.flatMap toBytes

namespace Decoded

open Instruction (bytesOf)

section Step

variable {c c' : Cursor} {ins : Instruction} {fault : Instruction.DecodeFault}

theorem ofCursor_of_end (h : c.length ≤ c.pos) : ofCursor c = ⟨[], none⟩ := by
  rw [ofCursor, if_pos h]

/-- A fault ends the decoding before the end of the bytes. -/
theorem ofCursor_of_error (h : c.pos < c.length) (he : Instruction.read c = .error fault) :
    ofCursor c = ⟨[], some fault⟩ := by
  rw [ofCursor, if_neg (by omega)]
  split
  · rename_i h'
    cases he.symm.trans h'
    rfl
  · rename_i h'
    cases he.symm.trans h'

/-- An instruction that is read stands in front of those behind it. -/
theorem ofCursor_of_ok (h : Instruction.read c = .ok (ins, c')) :
    ofCursor c = (ofCursor c').cons ins := by
  have := Instruction.read_eq_ok h
  rw [ofCursor, if_neg (by omega)]
  split
  · rename_i h'
    cases h.symm.trans h'
  · rename_i h'
    cases h.symm.trans h'
    rfl

end Step

/-- The instructions from a cursor on are well formed, follow one another and are the bytes up to
some position; this is the end of the buffer exactly if no fault stops the decoding. -/
theorem ofCursor_run (c : Cursor) (hp : c.pos ≤ c.length) :
    (∀ ins ∈ (ofCursor c).instructions, ins.WellFormed) ∧
      LaidOut c.pos (ofCursor c).instructions ∧
      ∃ c', c.Advances (bytesOf (ofCursor c).instructions) c' ∧
        ((ofCursor c).fault = none ↔ c'.rest = []) := by
  -- the induction is on the bytes ahead, along the recursion of `ofCursor`
  induction c using Decoded.ofCursor.induct with
  | case1 c hend =>
    rw [ofCursor_of_end hend]
    refine ⟨by simp, trivial, c, Cursor.Advances.refl hp, ?_⟩
    simp only [Cursor.rest_eq_nil_iff hp, true_iff]
    omega
  | case2 c hend fault hread =>
    rw [ofCursor_of_error (by omega) hread]
    refine ⟨by simp, trivial, c, Cursor.Advances.refl hp, ?_⟩
    simp only [Cursor.rest_eq_nil_iff hp, reduceCtorEq, false_iff]
    omega
  | case3 c hend ins c' hread ih =>
    obtain ⟨hpc, hwf, hadv⟩ := Instruction.read_eq_ok_iff.1 hread
    obtain ⟨hall, hlaid, c'', hadv', hfault⟩ := ih (hadv.length_eq ▸ hadv.pos_le)
    have hnext : ins.nextPc = c'.pos := by
      rw [hadv.pos_eq, ← hpc, Instruction.nextPc, Instruction.toBytes, List.length_cons]
      omega
    rw [ofCursor_of_ok hread]
    refine ⟨?_, ⟨hpc, ?_⟩, c'', ?_, hfault⟩
    · intro i hi
      rcases List.mem_cons.1 hi with rfl | hi
      · exact hwf
      · exact hall i hi
    · rw [hnext]
      exact hlaid
    · simp only [cons, bytesOf, List.flatMap_cons]
      exact hadv.trans hadv'

/-- Where the bytes of well-formed instructions lie ahead, these are decoded first. -/
theorem ofCursor_append {instrs : List Instruction} {c c' : Cursor}
    (hwf : ∀ ins ∈ instrs, ins.WellFormed) (hlaid : LaidOut c.pos instrs)
    (hadv : c.Advances (bytesOf instrs) c') :
    ofCursor c = ⟨instrs ++ (ofCursor c').instructions, (ofCursor c').fault⟩ := by
  induction instrs generalizing c with
  | nil =>
    have hp : c.pos ≤ c.length := by
      have := hadv.pos_eq
      have := hadv.pos_le
      omega
    rw [hadv.unique (Cursor.Advances.refl hp), List.nil_append]
  | cons ins instrs ih =>
    obtain ⟨hpc, hlaid⟩ := hlaid
    simp only [bytesOf, List.flatMap_cons] at hadv
    obtain ⟨c₁, h₁, h₂⟩ := hadv.split
    have hnext : ins.nextPc = c₁.pos := by
      rw [h₁.pos_eq, ← hpc, Instruction.nextPc, Instruction.toBytes, List.length_cons]
      omega
    have hread : Instruction.read c = .ok (ins, c₁) :=
      Instruction.read_eq_ok_iff.2 ⟨hpc, hwf ins List.mem_cons_self, h₁⟩
    rw [ofCursor_of_ok hread, ih (fun i hi => hwf i (List.mem_cons_of_mem _ hi)) (hnext ▸ hlaid) h₂]
    rfl

/-- Every decoded instruction is well formed. -/
theorem wellFormed_of_mem {code : Bytes} {ins : Instruction}
    (h : ins ∈ (ofBytes code).instructions) : ins.WellFormed :=
  (ofCursor_run (.ofBytes code) (Nat.zero_le _)).1 ins h

/-- Instructions that follow one another begin no earlier than the first of them. -/
theorem le_pc_of_laidOut {instrs : List Instruction} {pc : Nat} (h : LaidOut pc instrs)
    {ins : Instruction} (hi : ins ∈ instrs) : pc ≤ ins.pc := by
  induction instrs generalizing pc with
  | nil => cases hi
  | cons i instrs ih =>
    obtain ⟨rfl, h⟩ := h
    rcases List.mem_cons.1 hi with rfl | hi
    · exact Nat.le_refl _
    · have hle := ih h hi
      unfold Instruction.nextPc at hle
      omega

/-- Instructions that follow one another stand at increasing offsets. -/
theorem pairwise_pc_of_laidOut {instrs : List Instruction} {pc : Nat} (h : LaidOut pc instrs) :
    instrs.Pairwise fun a b => a.pc < b.pc := by
  induction instrs generalizing pc with
  | nil => exact .nil
  | cons i instrs ih =>
    obtain ⟨-, h⟩ := h
    refine .cons (fun j hj => ?_) (ih h)
    have hle := le_pc_of_laidOut h hj
    unfold Instruction.nextPc at hle
    omega

/-- The instructions of a code stand at increasing offsets. -/
theorem pairwise_pc (code : Bytes) :
    (ofBytes code).instructions.Pairwise fun a b => a.pc < b.pc :=
  pairwise_pc_of_laidOut (ofCursor_run (.ofBytes code) (Nat.zero_le _)).2.1

/-- There are no more instructions than bytes in them. -/
theorem length_le_bytesOf (instrs : List Instruction) :
    instrs.length ≤ (bytesOf instrs).length := by
  induction instrs with
  | nil => exact Nat.le_refl _
  | cons ins instrs ih =>
    simp only [bytesOf, List.flatMap_cons, List.length_append, List.length_cons,
      Instruction.toBytes] at ih ⊢
    omega

/-- Well-formed instructions that follow one another from offset 0 are decoded from their bytes. -/
theorem ofBytes_bytesOf {instrs : List Instruction} (hwf : ∀ ins ∈ instrs, ins.WellFormed)
    (hlaid : LaidOut 0 instrs) : ofBytes (bytesOf instrs) = ⟨instrs, none⟩ := by
  have hend : (Cursor.atEnd (bytesOf instrs)).length ≤ (Cursor.atEnd (bytesOf instrs)).pos := by
    simp [Cursor.atEnd, Cursor.length]
  rw [ofBytes, ofCursor_append hwf hlaid (Cursor.advances_atEnd _), ofCursor_of_end hend,
    List.append_nil]

/-- Whatever bytes follow those of well-formed instructions, these are decoded first. -/
theorem exists_instructions_append {instrs : List Instruction}
    (hwf : ∀ ins ∈ instrs, ins.WellFormed) (hlaid : LaidOut 0 instrs) (rest : Bytes) :
    ∃ more, (ofBytes (bytesOf instrs ++ rest)).instructions = instrs ++ more := by
  obtain ⟨c', hadvance, -⟩ := Cursor.exists_advances (Nat.zero_le _)
    (Cursor.rest_ofBytes (bytesOf instrs ++ rest))
  have hlaid : LaidOut (Cursor.ofBytes (bytesOf instrs ++ rest)).pos instrs := hlaid
  exact ⟨(ofCursor c').instructions, congrArg instructions (ofCursor_append hwf hlaid hadvance)⟩

/-- **Decoding and writing well-formed instructions are inverse to each other.** The instructions of
any code, up to a fault, are well formed, follow one another from offset 0 and are a prefix of the
code, the whole of it exactly if there is no fault; there are at most as many as bytes. Well-formed
instructions that follow one another from offset 0 are the instructions of their bytes. -/
theorem decoding_bijective (code : Bytes) (instrs : List Instruction) :
    ((∀ ins ∈ (ofBytes code).instructions, ins.WellFormed) ∧
      LaidOut 0 (ofBytes code).instructions ∧
      bytesOf (ofBytes code).instructions <+: code ∧
      ((ofBytes code).fault = none ↔ bytesOf (ofBytes code).instructions = code) ∧
      (ofBytes code).instructions.length ≤ code.length) ∧
    ((∀ ins ∈ instrs, ins.WellFormed) → LaidOut 0 instrs →
      ofBytes (bytesOf instrs) = ⟨instrs, none⟩) := by
  constructor
  · obtain ⟨hwf, hlaid, c', hadv, hfault⟩ := ofCursor_run (.ofBytes code) (Nat.zero_le _)
    have hcode : code = bytesOf (ofBytes code).instructions ++ c'.rest := hadv.rest_eq
    have hprefix : bytesOf (ofBytes code).instructions <+: code := ⟨c'.rest, hcode.symm⟩
    refine ⟨hwf, hlaid, hprefix, hfault.trans ⟨fun h => ?_, fun h => ?_⟩, ?_⟩
    · rw [h, List.append_nil] at hcode
      exact hcode.symm
    · rw [h] at hcode
      exact List.self_eq_append_right.1 hcode
    · exact Nat.le_trans (length_le_bytesOf _) hprefix.length_le
  · intro hwf hlaid
    have hadv := Cursor.advances_atEnd (bytesOf instrs)
    rw [ofBytes, ofCursor_append hwf hlaid hadv, ofCursor_of_end (by simp [Cursor.atEnd,
      Cursor.length]), List.append_nil]

/-- A jump table for the numbers -1 and 0 at offset 0, a widened increment and a return are the
instructions of their bytes. -/
theorem decoding_bijective_jump_table :
    let table : Instruction := ⟨0, .tableswitch,
      [0, 0, 0] ++ ([0, 0, 0, 30] ++ ([255, 255, 255, 255] ++ ([0, 0, 0, 0] ++
        [0, 0, 0, 24, 0, 0, 0, 30])))⟩
    let increment : Instruction := ⟨24, .wide, [Opcode.iinc.toByte, 1, 0, 0, 1]⟩
    let last : Instruction := ⟨30, .vreturn, []⟩
    ofBytes (bytesOf [table, increment, last]) = ⟨[table, increment, last], none⟩ := by
  refine (decoding_bijective [] _).2 ?_ ⟨rfl, rfl, rfl, trivial⟩
  simp only [List.mem_cons, List.not_mem_nil, or_false, forall_eq_or_imp, forall_eq]
  exact ⟨.tableSwitch (by decide) (by decide) rfl rfl rfl (by decide) (by decide),
    .wide (by decide), .fixed (by decide) rfl⟩

end Decoded

/-- Searching for an opcode finds it among the decoded instructions, or meets the fault behind
them. -/
theorem containsFrom_eq (op : Opcode) (c : Cursor) :
    containsFrom op c =
      if (Decoded.ofCursor c).instructions.any fun ins => ins.opcode = op then .ok true
      else match (Decoded.ofCursor c).fault with
        | some fault => .error fault
        | none => .ok false := by
  induction c using Decoded.ofCursor.induct with
  | case1 c hend => rw [containsFrom, if_pos hend, Decoded.ofCursor_of_end hend]; rfl
  | case2 c hend fault hread =>
    rw [containsFrom, if_neg hend, Decoded.ofCursor_of_error (by omega) hread]
    split
    · rename_i h'
      cases hread.symm.trans h'
      rfl
    · rename_i h'
      cases hread.symm.trans h'
  | case3 c hend ins c' hread ih =>
    rw [containsFrom, if_neg hend, Decoded.ofCursor_of_ok hread]
    split
    · rename_i h'
      cases hread.symm.trans h'
    · rename_i h'
      cases hread.symm.trans h'
      rw [ih]
      by_cases hop : ins.opcode = op <;> simp [Decoded.cons, hop]

/-- `containsFrom_eq` for a whole code. -/
theorem contains_eq (op : Opcode) (code : Bytes) :
    contains op code =
      if (Decoded.ofBytes code).instructions.any fun ins => ins.opcode = op then .ok true
      else match (Decoded.ofBytes code).fault with
        | some fault => .error fault
        | none => .ok false :=
  containsFrom_eq op (.ofBytes code)

end Forwarder
