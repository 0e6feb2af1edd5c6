import Forwarder.Instruction.Decode
import Forwarder.Proofs.Cursor.Advance

/-!
# Well-formed instructions

`Instruction.WellFormed` says which operand bytes an instruction has at its offset: a jump table is
aligned and as long as its header tells, a widened instruction has three or five bytes, every other
opcode has the number of bytes that `operandWidths` lists. `read_eq_ok_iff` is the one fact about
reading an instruction that later modules use: it succeeds exactly at the bytes of a well-formed
instruction.
-/

namespace Forwarder

namespace Opcode

/-- The number of operand bytes of every opcode, in the order of the numbers, sixteen in a row. The
opcodes without a fixed width, `0xAA`, `0xAB` and `0xC4`, are listed with none. -/
def operandWidths : List Nat := [
  0, 0, 0, 0, 0, 0, 0, 0, 0, 0, 0, 0, 0, 0, 0, 0,
  1, 2, 1, 2, 2, 1, 1, 1, 1, 1, 0, 0, 0, 0, 0, 0,
  0, 0, 0, 0, 0, 0, 0, 0, 0, 0, 0, 0, 0, 0, 0, 0,
  0, 0, 0, 0, 0, 0, 1, 1, 1, 1, 1, 0, 0, 0, 0, 0,
  0, 0, 0, 0, 0, 0, 0, 0, 0, 0, 0, 0, 0, 0, 0, 0,
  0, 0, 0, 0, 0, 0, 0, 0, 0, 0, 0, 0, 0, 0, 0, 0,
  0, 0, 0, 0, 0, 0, 0, 0, 0, 0, 0, 0, 0, 0, 0, 0,
  0, 0, 0, 0, 0, 0, 0, 0, 0, 0, 0, 0, 0, 0, 0, 0,
  0, 0, 0, 0, 2, 0, 0, 0, 0, 0, 0, 0, 0, 0, 0, 0,
  0, 0, 0, 0, 0, 0, 0, 0, 0, 2, 2, 2, 2, 2, 2, 2,
  2, 2, 2, 2, 2, 2, 2, 2, 2, 1, 0, 0, 0, 0, 0, 0,
  0, 0, 2, 2, 2, 2, 2, 2, 2, 4, 4, 2, 1, 2, 0, 0,
  2, 2, 0, 0, 0, 3, 2, 2, 4, 4]

/-- The number of operand bytes of an opcode of fixed width. -/
def operandWidth (op : Opcode) : Nat := operandWidths[op.code.val]?.getD 0

/-- Whether the operands of an opcode vary in width. -/
def HasVariableWidth (op : Opcode) : Prop := op = tableswitch ∨ op = lookupswitch ∨ op = wide

instance (op : Opcode) : Decidable op.HasVariableWidth :=
  inferInstanceAs (Decidable (_ ∨ _ ∨ _))

/-- Where the width of the operands does not vary, the layout says so. -/
theorem layout_code (code : Fin 202) (h : ¬ HasVariableWidth ⟨code⟩) :
    layout ⟨code⟩ = .fixed (operandWidth ⟨code⟩) := by
  revert code
  decide +kernel

/-- The layouts of the opcodes are those of the table of widths. -/
theorem layout_of_fixed {op : Opcode} (h : ¬ op.HasVariableWidth) :
    op.layout = .fixed op.operandWidth := layout_code op.code h

@[simp] theorem layout_tableswitch : layout tableswitch = .tableSwitch := rfl

@[simp] theorem layout_lookupswitch : layout lookupswitch = .lookupSwitch := rfl

@[simp] theorem layout_wide : layout wide = .wide := rfl

theorem toNat_toByte (op : Opcode) : op.toByte.toNat = op.code :=
  ofNat?_eq_some_iff.1 (ofByte?_toByte op)

/-- A byte encodes an opcode exactly if it is the byte of that opcode. -/
theorem ofNat?_toNat_eq_some {b : UInt8} {op : Opcode} :
    ofNat? b.toNat = some op ↔ b = op.toByte := by
  rw [ofNat?_eq_some_iff]
  constructor
  · intro h
    rw [toByte, ← h, UInt8.ofNat_toNat]
  · rintro rfl
    exact toNat_toByte op

end Opcode

namespace Instruction

open Cursor (Advances)

/-- The operands of an instruction are laid out as its opcode asks at its offset. -/
inductive WellFormed : Instruction → Prop where
  /-- A jump table over the numbers from `low` to `high`, behind the bytes that align it and the
  jump for all other numbers. -/
  | tableSwitch {pc : Nat} {pad fallback low high jumps : Bytes}
      (hpad : pad.length < 4) (halign : (pc + 1 + pad.length) % 4 = 0)
      (hfallback : fallback.length = 4) (hlow : low.length = 4) (hhigh : high.length = 4)
      (hle : low.toInt ≤ high.toInt)
      (hjumps : (jumps.length : Int) = 4 * (high.toInt - low.toInt + 1)) :
      WellFormed ⟨pc, .tableswitch, pad ++ (fallback ++ (low ++ (high ++ jumps)))⟩
  /-- A jump table over a number of listed pairs. -/
  | lookupSwitch {pc : Nat} {pad fallback npairs pairs : Bytes}
      (hpad : pad.length < 4) (halign : (pc + 1 + pad.length) % 4 = 0)
      (hfallback : fallback.length = 4) (hnpairs : npairs.length = 4) (hnonneg : 0 ≤ npairs.toInt)
      (hpairs : (pairs.length : Int) = 8 * npairs.toInt) :
      WellFormed ⟨pc, .lookupswitch, pad ++ (fallback ++ (npairs ++ pairs))⟩
  /-- A widened instruction: its opcode and an index, and an increment if it has one. -/
  | wide {pc : Nat} {modified : UInt8} {rest : Bytes}
      (hrest : (modified :: rest).length = if modified = Opcode.iinc.toByte then 5 else 3) :
      WellFormed ⟨pc, .wide, modified :: rest⟩
  /-- Any other instruction. -/
  | fixed {pc : Nat} {op : Opcode} {operands : Bytes} (hop : ¬ op.HasVariableWidth)
      (hwidth : operands.length = op.operandWidth) : WellFormed ⟨pc, op, operands⟩

/-- The padding at an offset is the only number of bytes below four that aligns it. -/
theorem eq_padding_iff {pc n : Nat} : n = padding pc ↔ n < 4 ∧ (pc + 1 + n) % 4 = 0 := by
  unfold padding
  omega

section Read

variable {c c' : Cursor} {pc : Nat} {op : Opcode} {width : Int} {ins : Instruction}

/-- An opcode is read exactly at its byte. -/
theorem readOpcode_eq_ok_iff :
    readOpcode pc c = .ok (op, c') ↔ c.Advances [op.toByte] c' := by
  simp only [readOpcode, Cursor.bind_eq_ok_iff, liftM, monadLift, MonadLift.monadLift,
    Cursor.mapFault_eq_ok_iff, Cursor.u1, Cursor.unsigned_eq_ok]
  constructor
  · rintro ⟨n, c₁, ⟨bs, hl, h, rfl⟩, hop⟩
    obtain ⟨b, rfl⟩ := List.length_eq_one_iff.1 hl
    rw [show Bytes.toNat [b] = b.toNat by simp [Bytes.toNat]] at hop
    cases ho : Opcode.ofNat? b.toNat with
    | none =>
      rw [ho] at hop
      exact absurd hop Cursor.throw_ne_ok
    | some op' =>
      rw [ho] at hop
      obtain ⟨rfl, rfl⟩ := Cursor.pure_eq_ok_iff.1 hop
      rw [← Opcode.ofNat?_toNat_eq_some.1 ho]
      exact h
  · intro h
    refine ⟨_, c', ⟨_, rfl, h, rfl⟩, ?_⟩
    have ho : Opcode.ofNat? (Bytes.toNat [op.toByte]) = some op := by
      rw [show Bytes.toNat [op.toByte] = op.toByte.toNat by simp [Bytes.toNat]]
      exact Opcode.ofNat?_toNat_eq_some.2 rfl
    rw [ho]
    exact Cursor.pure_eq_ok_iff.2 ⟨rfl, rfl⟩

theorem ahead_eq_ok_iff {ε α : Type} {r : Cursor.Reader ε α} {a : α} :
    ahead r c = .ok (a, c') ↔ c' = c ∧ ∃ c₁, r c = .ok (a, c₁) := by
  cases hr : r c with
  | error e => simp [ahead, hr, Except.map]
  | ok p =>
    obtain ⟨a', c₁⟩ := p
    simp [ahead, hr, Except.map, and_comm, eq_comm]

/-- The width of a fixed layout does not depend on the bytes ahead. -/
theorem operandWidth_fixed {n : Nat} (h : op.layout = .fixed n) :
    operandWidth op pc c = .ok (width, c') ↔ width = n ∧ c' = c := by
  simp only [operandWidth, h, Cursor.pure_eq_ok_iff]
  constructor
  · rintro ⟨rfl, rfl⟩
    exact ⟨rfl, rfl⟩
  · rintro ⟨rfl, rfl⟩
    exact ⟨rfl, rfl⟩

/-- The width of a widened instruction is found at its first byte. -/
theorem operandWidth_wide :
    operandWidth .wide pc c = .ok (width, c') ↔
      ∃ b : UInt8, c.Advances [b] c' ∧ width = if b = Opcode.iinc.toByte then 5 else 3 := by
  have key (b : UInt8) : Bytes.toNat [b] = Opcode.iinc.code ↔ b = Opcode.iinc.toByte := by
    rw [← UInt8.toNat_inj, Opcode.toNat_toByte]
    simp [Bytes.toNat]
  simp only [operandWidth, Opcode.layout_wide, Cursor.bind_eq_ok_iff, liftM, monadLift,
    MonadLift.monadLift, Cursor.mapFault_eq_ok_iff, Cursor.u1, Cursor.unsigned_eq_ok,
    Cursor.pure_eq_ok_iff]
  constructor
  · rintro ⟨n, c₁, ⟨bs, hl, h, rfl⟩, rfl, rfl⟩
    obtain ⟨b, rfl⟩ := List.length_eq_one_iff.1 hl
    exact ⟨b, h, by simp only [key]⟩
  · rintro ⟨b, h, rfl⟩
    exact ⟨_, c', ⟨[b], rfl, h, rfl⟩, by simp only [key], rfl⟩

/-- The width of a table over a range is found in its header. -/
theorem operandWidth_tableswitch :
    operandWidth .tableswitch pc c = .ok (width, c') ↔
      ∃ pad fallback low high : Bytes, pad.length = padding pc ∧ fallback.length = 4 ∧
        low.length = 4 ∧ high.length = 4 ∧ c.Advances (pad ++ (fallback ++ (low ++ high))) c' ∧
        low.toInt ≤ high.toInt ∧
        width = padding pc + 12 + 4 * (high.toInt - low.toInt + 1) := by
  simp only [operandWidth, Opcode.layout_tableswitch, Cursor.bind_eq_ok_iff, liftM, monadLift,
    MonadLift.monadLift, Cursor.mapFault_eq_ok_iff, Cursor.skip_eq_ok, Cursor.i4,
    Cursor.signed_eq_ok]
  constructor
  · rintro ⟨_, c₁, ⟨pad, hpad, h₁⟩, _, c₂, ⟨fallback, hf, h₂⟩, _, c₃, ⟨low, hl, h₃, rfl⟩, _, c₄,
      ⟨high, hh, h₄, rfl⟩, h⟩
    split at h
    · obtain ⟨_, _, h, -⟩ := Cursor.bind_eq_ok_iff.1 h
      exact absurd h Cursor.throw_ne_ok
    · rename_i hlt
      obtain ⟨rfl, rfl⟩ := Cursor.pure_eq_ok_iff.1 h
      exact ⟨pad, fallback, low, high, by omega, by omega, hl, hh,
        h₁.trans (h₂.trans (h₃.trans h₄)), by omega, rfl⟩
  · rintro ⟨pad, fallback, low, high, hpad, hf, hl, hh, h, hle, rfl⟩
    obtain ⟨c₁, h₁, h⟩ := h.split
    obtain ⟨c₂, h₂, h⟩ := h.split
    obtain ⟨c₃, h₃, h₄⟩ := h.split
    refine ⟨(), c₁, ⟨pad, by omega, h₁⟩, (), c₂, ⟨fallback, by omega, h₂⟩, _, c₃,
      ⟨low, hl, h₃, rfl⟩, _, c', ⟨high, hh, h₄, rfl⟩, ?_⟩
    rw [if_neg (by omega)]
    exact Cursor.pure_eq_ok_iff.2 ⟨rfl, rfl⟩

/-- The width of a table over listed pairs is found in its header. -/
theorem operandWidth_lookupswitch :
    operandWidth .lookupswitch pc c = .ok (width, c') ↔
      ∃ pad fallback npairs : Bytes, pad.length = padding pc ∧ fallback.length = 4 ∧
        npairs.length = 4 ∧ c.Advances (pad ++ (fallback ++ npairs)) c' ∧ 0 ≤ npairs.toInt ∧
        width = padding pc + 8 + 8 * npairs.toInt := by
  simp only [operandWidth, Opcode.layout_lookupswitch, Cursor.bind_eq_ok_iff, liftM, monadLift,
    MonadLift.monadLift, Cursor.mapFault_eq_ok_iff, Cursor.skip_eq_ok, Cursor.i4,
    Cursor.signed_eq_ok]
  constructor
  · rintro ⟨_, c₁, ⟨pad, hpad, h₁⟩, _, c₂, ⟨fallback, hf, h₂⟩, _, c₃, ⟨npairs, hn, h₃, rfl⟩, h⟩
    split at h
    · obtain ⟨_, _, h, -⟩ := Cursor.bind_eq_ok_iff.1 h
      exact absurd h Cursor.throw_ne_ok
    · rename_i hlt
      obtain ⟨rfl, rfl⟩ := Cursor.pure_eq_ok_iff.1 h
      exact ⟨pad, fallback, npairs, by omega, by omega, hn, h₁.trans (h₂.trans h₃), by omega, rfl⟩
  · rintro ⟨pad, fallback, npairs, hpad, hf, hn, h, hnonneg, rfl⟩
    obtain ⟨c₁, h₁, h⟩ := h.split
    obtain ⟨c₂, h₂, h₃⟩ := h.split
    refine ⟨(), c₁, ⟨pad, by omega, h₁⟩, (), c₂, ⟨fallback, by omega, h₂⟩, _, c',
      ⟨npairs, hn, h₃, rfl⟩, ?_⟩
    rw [if_neg (by omega)]
    exact Cursor.pure_eq_ok_iff.2 ⟨rfl, rfl⟩

/-- The width read ahead is the number of operand bytes exactly if the instruction with these
operands is well formed. -/
theorem operandWidth_eq_length {operands : Bytes} (h : c.Advances operands c') :
    (∃ c₁, operandWidth op pc c = .ok ((operands.length : Int), c₁)) ↔
      WellFormed ⟨pc, op, operands⟩ := by
  constructor
  · rintro ⟨c₁, hw⟩
    by_cases hop : op.HasVariableWidth
    · rcases hop with rfl | rfl | rfl
      · obtain ⟨pad, fallback, low, high, hpad, hf, hl, hh, h₁, hle, hlen⟩ :=
          operandWidth_tableswitch.1 hw
        obtain ⟨jumps, rfl⟩ := h₁.prefix_of_le h (by simp only [List.length_append]; omega)
        obtain ⟨hlt, halign⟩ := eq_padding_iff.1 hpad
        simp only [List.length_append] at hlen
        simp only [List.append_assoc]
        exact .tableSwitch hlt halign hf hl hh hle (by omega)
      · obtain ⟨pad, fallback, npairs, hpad, hf, hn, h₁, hnonneg, hlen⟩ :=
          operandWidth_lookupswitch.1 hw
        obtain ⟨pairs, rfl⟩ := h₁.prefix_of_le h (by simp only [List.length_append]; omega)
        obtain ⟨hlt, halign⟩ := eq_padding_iff.1 hpad
        simp only [List.length_append] at hlen
        simp only [List.append_assoc]
        exact .lookupSwitch hlt halign hf hn hnonneg (by omega)
      · obtain ⟨b, h₁, hlen⟩ := operandWidth_wide.1 hw
        have hpos : 1 ≤ operands.length := by split at hlen <;> omega
        obtain ⟨rest, rfl⟩ := h₁.prefix_of_le h hpos
        refine .wide ?_
        split at hlen
        · rename_i hb
          rw [if_pos hb]
          exact Int.ofNat_inj.1 hlen
        · rename_i hb
          rw [if_neg hb]
          exact Int.ofNat_inj.1 hlen
    · obtain ⟨hlen, -⟩ := (operandWidth_fixed (Opcode.layout_of_fixed hop)).1 hw
      exact .fixed hop (by omega)
  · intro hwf
    cases hwf with
    | @tableSwitch _ pad fallback low high jumps hpad halign hf hl hh hle hjumps =>
      obtain ⟨c₁, h₁, -⟩ := Advances.split (a := pad ++ (fallback ++ (low ++ high)))
        (b := jumps) (by simpa only [List.append_assoc] using h)
      have hp : pad.length = padding pc := eq_padding_iff.2 ⟨hpad, halign⟩
      refine ⟨c₁, operandWidth_tableswitch.2
        ⟨pad, fallback, low, high, hp, hf, hl, hh, h₁, hle, ?_⟩⟩
      simp only [List.length_append]
      omega
    | @lookupSwitch _ pad fallback npairs pairs hpad halign hf hn hnonneg hpairs =>
      obtain ⟨c₁, h₁, -⟩ := Advances.split (a := pad ++ (fallback ++ npairs))
        (b := pairs) (by simpa only [List.append_assoc] using h)
      have hp : pad.length = padding pc := eq_padding_iff.2 ⟨hpad, halign⟩
      refine ⟨c₁, operandWidth_lookupswitch.2
        ⟨pad, fallback, npairs, hp, hf, hn, h₁, hnonneg, ?_⟩⟩
      simp only [List.length_append]
      omega
    | @wide _ modified rest hrest =>
      obtain ⟨c₁, h₁, -⟩ := Advances.split (a := [modified]) (b := rest) h
      exact ⟨c₁, operandWidth_wide.2 ⟨modified, h₁, by rw [hrest]; split <;> rfl⟩⟩
    | fixed hop hwidth =>
      exact ⟨c, (operandWidth_fixed (Opcode.layout_of_fixed hop)).2 ⟨by rw [hwidth], rfl⟩⟩

/-- An instruction is read exactly where the bytes of a well-formed one lie ahead. -/
theorem read_eq_ok_iff :
    read c = .ok (ins, c') ↔
      ins.pc = c.pos ∧ ins.WellFormed ∧ c.Advances ins.toBytes c' := by
  simp only [read, Cursor.bind_eq_ok_iff, Cursor.get_eq_ok_iff, liftM, monadLift,
    MonadLift.monadLift, Cursor.mapFault_eq_ok_iff, Cursor.pure_eq_ok_iff, readOpcode_eq_ok_iff,
    ahead_eq_ok_iff, Cursor.take_eq_ok]
  constructor
  · rintro ⟨_, _, ⟨rfl, rfl⟩, op, c₁, h₁, width, _, ⟨rfl, hw⟩, operands, _, ⟨hlen, h₂⟩, rfl, rfl⟩
    rw [← hlen] at hw
    exact ⟨rfl, (operandWidth_eq_length h₂).1 hw, h₁.trans h₂⟩
  · obtain ⟨pc, op, operands⟩ := ins
    rintro ⟨rfl, hwf, h⟩
    obtain ⟨c₁, h₁, h₂⟩ := Advances.split (a := [op.toByte]) (b := operands) h
    exact ⟨c, c, ⟨rfl, rfl⟩, op, c₁, h₁, _, c₁, ⟨rfl, (operandWidth_eq_length h₂).2 hwf⟩,
      operands, c', ⟨rfl, h₂⟩, rfl, rfl⟩

end Read

section Operands

/-- An opcode that names a constant has at least two bytes of operands. -/
theorem namesConstant_code (code : Fin 202) (h : Opcode.namesConstant ⟨code⟩ = true) :
    ¬ Opcode.HasVariableWidth ⟨code⟩ ∧ 2 ≤ Opcode.operandWidth ⟨code⟩ := by
  revert code
  decide +kernel

/-- A well-formed instruction that refers to the constant pool has the index of a constant. -/
theorem WellFormed.constantIndex {ins : Instruction} (h : ins.WellFormed)
    (hop : ins.opcode.namesConstant = true) : ∃ index, ins.constantIndex = .ok index := by
  obtain ⟨hfixed, hle⟩ := namesConstant_code ins.opcode.code hop
  cases h with
  | tableSwitch => exact absurd (.inl rfl) hfixed
  | lookupSwitch => exact absurd (.inr (.inl rfl)) hfixed
  | wide => exact absurd (.inr (.inr rfl)) hfixed
  | @fixed pc op operands _ hwidth =>
    have hlen : 2 ≤ operands.length := hwidth ▸ hle
    match operands, hlen with
    | hi :: lo :: rest, _ =>
      unfold Instruction.constantIndex
      split
      · exact ⟨_, rfl⟩
      · exact ⟨256 * hi.toNat + lo.toNat, rfl⟩

/-- A well-formed load of a reference has the index of a local variable. -/
theorem WellFormed.localIndex {ins : Instruction} (h : ins.WellFormed)
    (hop : ins.opcode = .aload0 ∨ ins.opcode = .aload) :
    ∃ index, ins.localIndex = .ok index := by
  cases h with
  | tableSwitch | lookupSwitch | wide => rcases hop with hop | hop <;> cases hop
  | @fixed pc op operands _ hwidth =>
    rcases hop with rfl | rfl
    · exact ⟨_, rfl⟩
    · obtain ⟨slot, rfl⟩ := List.length_eq_one_iff.1 hwidth
      exact ⟨_, rfl⟩

end Operands

end Instruction

end Forwarder
