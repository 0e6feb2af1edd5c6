import Forwarder.Proofs.ClassFile.Slots
import Forwarder.Proofs.Except
import Forwarder.Proofs.Text.Utf8

/-!
# The pool reads back

What is written for a constant of one of the format's kinds spells it (`spelledBy_of_encode`), so the
constants of a pool fill its slots (`fills_of_encode`). This gives `reads_pool`: a sound pool is read
back slot by slot, the empty slots behind eight-byte numbers among them.
-/

namespace Forwarder

open Cursor

namespace Constant

section Encode

variable {c : Constant} {bs : Bytes}

/-- The bytes of a constant are its tag and the fields behind it. -/
theorem encode_eq_ok {fields : List Field}
    (hf : (Tag.ofNumber? c.tag).bind Tag.fields? = some fields) (h : c.encode = .ok bs) :
    ∃ tag parts, Encode.byte c.tag = .ok tag ∧
      ((fields.zip c.operands).mapM fun (field, operand) => field.encode operand) = .ok parts ∧
      bs = tag :: parts.flatten := by
  unfold encode at h
  obtain ⟨tag, htag, h⟩ := except_bind_eq_ok.1 h
  obtain ⟨rest, hrest, h⟩ := except_bind_eq_ok.1 h
  cases h
  unfold encodeOperands at hrest
  rw [hf] at hrest
  simp only at hrest
  split at hrest
  · cases hrest
  obtain ⟨parts, hparts, h⟩ := except_bind_eq_ok.1 hrest
  cases h
  exact ⟨tag, parts, htag, hparts, rfl⟩

/-- Constants without fields of their own are not written. -/
theorem encode_ne_ok (hf : (Tag.ofNumber? c.tag).bind Tag.fields? = none) : c.encode ≠ .ok bs := by
  intro h
  unfold encode at h
  obtain ⟨tag, -, h⟩ := except_bind_eq_ok.1 h
  obtain ⟨rest, hrest, -⟩ := except_bind_eq_ok.1 h
  unfold encodeOperands at hrest
  rw [hf] at hrest
  cases hrest

/-- The byte of a tag is its number in one byte. -/
theorem ofNat_of_byte {n : Nat} {b : UInt8} (h : Encode.byte n = .ok b) : Bytes.ofNat 1 n = [b] := by
  unfold Encode.byte at h
  split at h
  · cases h
    simp [Bytes.ofNat, Bytes.capacity]
  · cases h

/-- A tag that can be written has the fields that the reader reads behind it. -/
theorem layout_of_fields? {t : Tag} {fields : List Field} (h : t.fields? = some fields) :
    t.layout = fields := by
  cases t with
  | float | double | dynamic | moduleRef | packageRef => cases h
  | _ => exact Option.some.inj h

/-- A constant of one of the format's kinds is the one that its tag and its operands make. -/
theorem IsStandard.exists_tag (hc : c.IsStandard) :
    ∃ t : Tag, c.tag = t.number ∧ t.constant c.operands = c ∧
      c.operands.length = t.layout.length := by
  cases c with
  | other tag operands => exact absurd rfl (hc tag operands)
  | float bits => exact ⟨.float, rfl, by simp [Tag.constant, operands], rfl⟩
  | double bits => exact ⟨.double, rfl, by simp [Tag.constant, operands], rfl⟩
  | member kind i j => exact ⟨.member kind, rfl, by cases kind <;> rfl, rfl⟩
  | _ => exact ⟨_, rfl, rfl, rfl⟩

/-- What is written into a field the field holds. -/
theorem holds_of_encode {f : Field} {o : Operand} (h : f.encode o = .ok bs) : f.Holds bs o := by
  cases f with
  | unsigned width =>
    cases o with
    | text s => cases h
    | number i =>
      obtain ⟨n, rfl, hlt, rfl⟩ := exists_of_unsigned h
      exact .unsigned hlt
  | signed width =>
    cases o with
    | text s => cases h
    | number i =>
      obtain ⟨hlow, hhigh, rfl⟩ := exists_of_signed h
      exact .signed hlow hhigh
  | text =>
    cases o with
    | number i => cases h
    | text s =>
      obtain ⟨length, hlength, h⟩ := except_bind_eq_ok.1 h
      cases h
      obtain ⟨n, hn, hlt, rfl⟩ := exists_of_unsigned hlength
      obtain rfl : n = (Utf8.encode s).length := Int.ofNat.inj hn
      have hholds := Field.Holds.text hlt
      rwa [Utf8.decode_encode] at hholds

/-- Operands that are written into their fields, one by one, are held by the bytes. -/
theorem holdEach_of_encode {fields : List Field} {operands : List Operand} {parts : List Bytes}
    (hlength : operands.length = fields.length)
    (h : List.Forall₂ (fun (f, o) part => Field.encode f o = .ok part) (fields.zip operands) parts) :
    Field.HoldEach fields parts.flatten operands := by
  induction fields generalizing operands parts with
  | nil =>
    obtain rfl := List.length_eq_zero_iff.1 hlength
    cases h
    exact .nil
  | cons f fields ih =>
    obtain ⟨o, operands, rfl⟩ := List.exists_cons_of_length_eq_add_one hlength
    obtain ⟨part, parts, hpart, hparts, rfl⟩ := List.forall₂_cons_left_iff.1 h
    exact .cons (holds_of_encode hpart) (ih (Nat.succ.inj hlength) hparts)

/-- **What is written for a constant of one of the format's kinds spells it.** -/
theorem spelledBy_of_encode (hc : c.IsStandard) (h : c.encode = .ok bs) : c.SpelledBy bs := by
  obtain ⟨t, htag, hconstant, hlength⟩ := hc.exists_tag
  have hbind : (Tag.ofNumber? c.tag).bind Tag.fields? = t.fields? := by
    rw [htag, Tag.ofNumber?_number, Option.bind_some]
  cases hfields : t.fields? with
  | none => exact absurd h (encode_ne_ok (hbind.trans hfields))
  | some fields =>
    obtain ⟨b, parts, hb, hparts, rfl⟩ := encode_eq_ok (hbind.trans hfields) h
    obtain rfl := layout_of_fields? hfields
    have heach := holdEach_of_encode hlength (forall₂_of_mapM hparts)
    have hspelled := SpelledBy.intro heach
    rw [htag] at hb
    rwa [hconstant, ofNat_of_byte hb] at hspelled

end Encode

/-- The slots of constants hold these and nothing else. -/
theorem filterMap_cells (cs : List Constant) : (cs.flatMap cells).filterMap id = cs := by
  induction cs with
  | nil => rfl
  | cons c cs ih =>
    rw [List.flatMap_cons, List.filterMap_append, ih]
    unfold cells
    split <;> rfl

end Constant

/-! ## The pool -/

/-- Constants that are written one behind the other fill as many slots as they have cells. -/
theorem ClassFile.fills_of_encode {cs : List Constant} {parts : List Bytes}
    (h : List.Forall₂ (fun c part => Constant.encode c = .ok part) cs parts)
    (hcs : ∀ c ∈ cs, c.IsStandard) (slot : Nat) :
    Fills (slot + (cs.flatMap Constant.cells).length) slot (parts.zip cs) := by
  induction h generalizing slot with
  | nil => exact .nil (Nat.le_refl _)
  | @cons c part cs parts hc _ ih =>
    obtain ⟨hstandard, hrest⟩ := List.forall_mem_cons.1 hcs
    have hfills := ih hrest (slot + c.width)
    rw [List.flatMap_cons, List.length_append, Constant.length_cells, ← Nat.add_assoc]
    refine .cons ?_ (Constant.spelledBy_of_encode hstandard hc).reads hfills
    have hpos := c.width_pos
    omega

/-- Constants that are written behind the number of their slots are read back as a pool. -/
theorem ClassFile.reads_pool_of_constants {cs : List Constant} {parts : List Bytes} {count : Bytes}
    {pool : ConstantPool}
    (hcount : Encode.u2 (1 + (cs.flatMap Constant.cells).length : Nat) = .ok count)
    (h : List.Forall₂ (fun c part => Constant.encode c = .ok part) cs parts)
    (hcs : ∀ c ∈ cs, c.IsStandard) (hslots : pool.slots.toList = none :: cs.flatMap Constant.cells) :
    Reads readPool (count ++ parts.flatten) pool := by
  obtain ⟨n, hn, hlt, rfl⟩ := exists_of_unsigned hcount
  obtain rfl := Int.ofNat.inj hn
  have hbytes : (parts.zip cs).flatMap Prod.fst = parts.flatten := by
    rw [List.flatMap_def, List.map_fst_zip (Nat.le_of_eq h.length_eq.symm)]
  have hcells : ((parts.zip cs).flatMap fun part => part.2.cells) = cs.flatMap Constant.cells := by
    rw [← List.flatMap_map, List.map_snd_zip (Nat.le_of_eq h.length_eq)]
  rw [← hbytes]
  exact (fills_of_encode h hcs 1).reads_pool hlt (hslots.trans (by rw [hcells]))

namespace PoolBuilder

section Layout

variable {p : PoolBuilder} {cs : List Constant}
  (hcs : p.slots.toList = none :: cs.flatMap Constant.cells)

include hcs

/-- A pool has one slot more than its constants take up. -/
theorem size_of_layout : p.size = 1 + (cs.flatMap Constant.cells).length := by
  rw [size, ← Array.length_toList, hcs, List.length_cons, Nat.add_comm]

/-- A pool is written as the number of its slots and its constants. -/
theorem exists_parts_of_encode {bs : Bytes} (h : p.encode = .ok bs) :
    ∃ count parts, Encode.u2 (1 + (cs.flatMap Constant.cells).length : Nat) = .ok count ∧
      List.Forall₂ (fun c part => Constant.encode c = .ok part) cs parts ∧
      bs = count ++ parts.flatten := by
  obtain ⟨count, hcount, h⟩ := except_bind_eq_ok.1 h
  obtain ⟨parts, hparts, h⟩ := except_bind_eq_ok.1 h
  cases h
  rw [size_of_layout hcs] at hcount
  rw [hcs, List.filterMap_cons_none rfl, Constant.filterMap_cells] at hparts
  exact ⟨count, parts, hcount, forall₂_of_mapM hparts, rfl⟩

end Layout

/-- **A sound pool is read back slot by slot.** -/
theorem reads_pool {p : PoolBuilder} {bs : Bytes} (hp : p.Sound) (h : p.encode = .ok bs) :
    Reads ClassFile.readPool bs p.pool := by
  obtain ⟨cs, hcs, hstandard⟩ := hp.layout
  obtain ⟨count, parts, hcount, hparts, rfl⟩ := exists_parts_of_encode hcs h
  exact ClassFile.reads_pool_of_constants hcount hparts hstandard hcs

end PoolBuilder

end Forwarder
