import Forwarder.Proofs.ClassFile.Names
import Forwarder.Proofs.ClassFile.Slots

/-!
# Where the constants of a class file stand

Behind its magic number and its version a class file holds the constants that fill the slots of its
pool (`Fills`): `exists_parts_of_decode` takes a class file apart into these. `TextAt` says which text
constant has a slot, and `utf8_eq_ok_iff_textAt` ties the strings of a decoded pool to the bytes that
they were decoded from.
-/

namespace Forwarder.ClassFile

open Cursor

/-! ## The parts of a constant pool -/

section Parts

variable {count slot : Nat} {bs rest rest' : Bytes} {k : Constant}
  {parts before : List (Bytes × Constant)}

/-- Every constant that fills slots is read from its bytes, and takes a slot below their number. -/
theorem Fills.of_append {after : List (Bytes × Constant)}
    (h : Fills count slot (before ++ (bs, k) :: after)) :
    (∀ part ∈ before, ReadsConstant part.1 part.2) ∧ ReadsConstant bs k ∧
      slot + widthOf before < count := by
  induction before generalizing slot with
  | nil =>
    cases h with
    | cons hlt hk _ => exact ⟨nofun, hk, hlt⟩
  | cons part before ih =>
    cases h with
    | cons hlt hk' h =>
      obtain ⟨hbefore, hk, hlt⟩ := ih h
      rw [widthOf, ← Nat.add_assoc]
      exact ⟨List.forall_mem_cons.2 ⟨hk', hbefore⟩, hk, hlt⟩

/-- Where constants and one more are read, they are the first ones that fill the slots. -/
theorem Fills.exists_after (h : Fills count slot parts)
    (hbefore : ∀ part ∈ before, ReadsConstant part.1 part.2) (hk : ReadsConstant bs k)
    (hlt : slot + widthOf before < count)
    (heq : before.flatMap Prod.fst ++ (bs ++ rest) = parts.flatMap Prod.fst ++ rest') :
    ∃ after, parts = before ++ (bs, k) :: after := by
  induction before generalizing slot parts with
  | nil =>
    cases h with
    | nil hge => exact absurd (Nat.lt_of_le_of_lt (Nat.le_add_right ..) hlt) (Nat.not_lt.2 hge)
    | cons _ hk' _ =>
      rw [List.flatMap_nil, List.nil_append, List.flatMap_cons, List.append_assoc] at heq
      obtain ⟨rfl, rfl⟩ := (hk slot).unique (hk' slot) heq
      exact ⟨_, rfl⟩
  | cons part before ih =>
    rw [widthOf] at hlt
    cases h with
    | nil hge => omega
    | cons _ hk' h =>
      rw [List.flatMap_cons, List.flatMap_cons, List.append_assoc, List.append_assoc] at heq
      obtain ⟨rfl, rfl⟩ := (hbefore part List.mem_cons_self slot).unique (hk' slot) heq
      obtain ⟨after, rfl⟩ := ih h (fun p hp => hbefore p (List.mem_cons_of_mem _ hp)) (by omega)
        (List.append_cancel_left heq)
      exact ⟨after, rfl⟩

end Parts

/-! ## The pool of a class file -/

section Decode

variable {data bs text : Bytes} {cls : ClassFile} {s : String}

/-- Behind its magic number and its version a class file holds the number of its slots and the
constants that fill them. -/
theorem exists_parts_of_decode (h : decode data = .ok cls) :
    ∃ head count parts rest,
      data = head ++ (Bytes.ofNat 2 count ++ (parts.flatMap Prod.fst ++ rest)) ∧
        head.length = 8 ∧ count < 0x10000 ∧ Fills count 1 parts ∧
        cls.pool.slots.toList = none :: parts.flatMap fun part => part.2.cells := by
  obtain ⟨c, h⟩ := decode_eq_ok_iff.1 h
  obtain ⟨head, c₁, c₂, -, -, hhead, hlength, hpool, -⟩ := exists_indices_of_read h
  obtain ⟨count, parts, hcount, hfills, hadvances, hslots⟩ := exists_fills_of_readPool hpool
  refine ⟨head, count, parts, c₂.rest, ?_, hlength, hcount, hfills, hslots⟩
  rw [← List.append_assoc (Bytes.ofNat 2 count), ← hadvances.rest_eq, ← hhead.rest_eq, rest_ofBytes]

/-- Numbers that fit into two bytes are determined by these. -/
theorem eq_of_ofNat_eq {m n : Nat} (hm : m < Bytes.capacity 2) (hn : n < Bytes.capacity 2)
    (h : Bytes.ofNat 2 m = Bytes.ofNat 2 n) : m = n := by
  have hnat := congrArg Bytes.toNat h
  rwa [Bytes.toNat_ofNat, Bytes.toNat_ofNat, Nat.mod_eq_of_lt hm, Nat.mod_eq_of_lt hn] at hnat

/-- The bytes of a text constant. -/
def textConstant (text : Bytes) : Bytes := 1 :: (Bytes.ofNat 2 text.length ++ text)

/-- A text constant is read as the string that its bytes decode to. -/
theorem readsConstant_text (h : text.length < 0x10000) :
    ReadsConstant (textConstant text) (.utf8 (Utf8.decode text)) := by
  have heach := Field.HoldEach.cons (Field.Holds.text h) .nil
  rw [List.append_nil] at heach
  exact readsConstant_iff_spelledBy.2 (Constant.SpelledBy.intro (t := .utf8) heach)

/-- A constant is read as a text only from the bytes of a text constant. -/
theorem ReadsConstant.exists_text (h : ReadsConstant bs (.utf8 s)) :
    ∃ text, text.length < 0x10000 ∧ bs = textConstant text ∧ s = Utf8.decode text := by
  have hspelled := readsConstant_iff_spelledBy.1 h
  generalize hk : Constant.utf8 s = k at hspelled
  obtain @⟨t, bs, operands, heach⟩ := hspelled
  have htag : (Tag.utf8.number : Int) = t.number := (congrArg Constant.tag hk).trans
    (Constant.tag_constant heach)
  obtain rfl : Tag.utf8 = t := Option.some.inj <| by
    rw [← Tag.ofNumber?_number, htag, Tag.ofNumber?_number]
  obtain _ | ⟨hholds, ⟨⟩⟩ := heach
  cases hholds with
  | text hlt =>
    cases hk
    exact ⟨_, hlt, by rw [List.append_nil]; rfl, rfl⟩

/-- A text constant has a slot of a class file: in front of it stand, behind the number of slots,
constants that take the slots before its own. -/
inductive TextAt (data : Bytes) (slot : Nat) (text : Bytes) : Prop where
  | intro {head rest : Bytes} {count : Nat} {before : List (Bytes × Constant)}
      (hdata : data = head ++ (Bytes.ofNat 2 count ++
        (before.flatMap Prod.fst ++ (textConstant text ++ rest))))
      (hhead : head.length = 8) (hcount : count < 0x10000)
      (hbefore : ∀ part ∈ before, ReadsConstant part.1 part.2) (htext : text.length < 0x10000)
      (hslot : slot = 1 + widthOf before) (hlt : slot < count)

/-- **The texts of a decoded pool are the strings of the text constants of the class file.** -/
theorem utf8_eq_ok_iff_textAt (h : decode data = .ok cls) (slot : Nat) :
    cls.pool.utf8 slot = .ok s ↔ ∃ text, TextAt data slot text ∧ s = Utf8.decode text := by
  obtain ⟨head, count, parts, rest, hdata, hhead, hcount, hfills, hslots⟩ :=
    exists_parts_of_decode h
  rw [ConstantPool.utf8_eq_ok_iff, ConstantPool.entry_eq_ok_iff, Int.toNat_natCast,
    ← Array.getElem?_toList, hslots]
  constructor
  · rintro ⟨hpos, hslot⟩
    obtain ⟨i, rfl⟩ : ∃ i, slot = 1 + i := ⟨slot - 1, by omega⟩
    rw [Nat.add_comm, List.getElem?_cons_succ] at hslot
    obtain ⟨before, bs, after, rfl, rfl⟩ := getElem?_cells_eq_some_iff.1 hslot
    obtain ⟨hbefore, hk, hlt⟩ := hfills.of_append
    obtain ⟨text, htext, rfl, rfl⟩ := hk.exists_text
    rw [List.flatMap_append, List.flatMap_cons, List.append_assoc, List.append_assoc] at hdata
    exact ⟨text, .intro hdata hhead hcount hbefore htext rfl hlt, rfl⟩
  · rintro ⟨text, ⟨hdata', hhead', hcount', hbefore, htext, rfl, hlt⟩, rfl⟩
    obtain ⟨rfl, hbehind⟩ := List.append_inj (hdata.symm.trans hdata') (hhead.trans hhead'.symm)
    obtain ⟨hcounts, hconstants⟩ := List.append_inj hbehind (by simp)
    obtain rfl := eq_of_ofNat_eq hcount hcount' hcounts
    obtain ⟨after, rfl⟩ :=
      hfills.exists_after hbefore (readsConstant_text htext) hlt hconstants.symm
    refine ⟨by omega, ?_⟩
    rw [Nat.add_comm, List.getElem?_cons_succ]
    exact getElem?_cells_eq_some_iff.2 ⟨_, _, after, rfl, rfl⟩

end Decode

end Forwarder.ClassFile
