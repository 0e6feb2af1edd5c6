import Mathlib.Data.List.Basic
import Forwarder.Assembler.Constant
import Forwarder.ClassFile.Read
import Forwarder.Proofs.Cursor.Reads

/-!
# How a class file spells a constant

A constant stands in a class file as a byte for its tag and the fields that the tag asks for
(`Tag.layout`), one behind the other. `Field.Holds` says which operand the bytes of a field hold, and
`Constant.SpelledBy` which bytes spell a constant. The reader goes the same way for every tag
(`ClassFile.readConstant_number`), so it reads a constant from the bytes that spell it
(`Constant.SpelledBy.reads`) and from no others (`ClassFile.exists_spelledBy`). What is spelled is of
the shape that its tag asks for (`Constant.SpelledBy.isShaped`).
-/

namespace Forwarder

open Cursor ClassFile

/-- The number of a tag fits into a byte. -/
theorem Tag.number_lt (t : Tag) : t.number < Bytes.capacity 1 := by
  cases t with
  | member kind => cases kind <;> decide
  | _ => decide

/-! ## The fields of a constant -/

/-- The fields behind a tag. -/
def Tag.layout : Tag → List Field
  | utf8 => [.text]
  | integer => [.signed 4]
  | float => [.unsigned 4]
  | long => [.signed 8]
  | double => [.unsigned 8]
  | classRef | string | methodType | moduleRef | packageRef => [.unsigned 2]
  | member _ | nameAndType | dynamic | invokeDynamic => [.unsigned 2, .unsigned 2]
  | methodHandle => [.unsigned 1, .unsigned 2]

/-- The constant that a tag and the operands in its fields make; the operand of a floating-point
number is its bit pattern. -/
def Tag.constant : Tag → List Operand → Constant
  | float, [.number n] => .float (UInt32.ofNat n.toNat)
  | double, [.number n] => .double (UInt64.ofNat n.toNat)
  | t, operands => .ofOperands t.number operands

namespace Field

/-- The bytes of a field hold an operand: they are what is written for a number that fits into the
field, or the bytes of a text behind their number. -/
inductive Holds : Field → Bytes → Operand → Prop where
  | unsigned {width n : Nat} (h : n < Bytes.capacity width) :
      Holds (.unsigned width) (Bytes.ofNat width n) (.number n)
  | signed {width : Nat} {i : Int} (hlow : -Bytes.capacity width ≤ 2 * i)
      (hhigh : 2 * i < Bytes.capacity width) :
      Holds (.signed width) (Bytes.ofInt width i) (.number i)
  | text {data : Bytes} (h : data.length < 0x10000) :
      Holds .text (Bytes.ofNat 2 data.length ++ data) (.text (Utf8.decode data))

/-- The bytes of fields, one behind the other, hold operands. -/
inductive HoldEach : List Field → Bytes → List Operand → Prop where
  | nil : HoldEach [] [] []
  | cons {f : Field} {fields : List Field} {bs bs' : Bytes} {o : Operand} {operands : List Operand}
      (h : f.Holds bs o) (h' : HoldEach fields bs' operands) :
      HoldEach (f :: fields) (bs ++ bs') (o :: operands)

/-- The operand in the field at the cursor. -/
def read : Field → ClassFile.Part Operand
  | unsigned width => do return .number (← Cursor.unsigned width)
  | signed width => do return .number (← Cursor.signed width)
  | text => do
    let length ← Cursor.u2
    return .text (Utf8.decode (← Cursor.take length))

/-- The operands in the fields at the cursor. -/
def readEach : List Field → ClassFile.Part (List Operand)
  | [] => return []
  | f :: fields => do
    let o ← f.read
    return o :: (← readEach fields)

end Field

/-- A constant is spelled by the byte of its tag and by fields behind it. -/
inductive Constant.SpelledBy : Constant → Bytes → Prop where
  | intro {t : Tag} {bs : Bytes} {operands : List Operand} (h : Field.HoldEach t.layout bs operands) :
      SpelledBy (t.constant operands) (Bytes.ofNat 1 t.number ++ bs)

/-! ## Reading -/

section Steps

variable {α : Type} {r : Cursor.Reader Fault α} {bs : Bytes} {a : α} {width n : Nat} {c c' : Cursor}

/-- A step of a cursor reads in a part of a class file what it reads on its own. -/
theorem ClassFile.reads_step (h : Reads r bs a) : Reads (liftM r : ClassFile.Part α) bs a :=
  h.mapFault FormatError.truncated

/-- A number is read in a part of a class file exactly from the bytes that are written for it. -/
theorem ClassFile.step_unsigned_iff :
    (liftM (Cursor.unsigned width) : ClassFile.Part Nat) c = .ok (n, c') ↔
      n < Bytes.capacity width ∧ c.Advances (Bytes.ofNat width n) c' :=
  mapFault_eq_ok_iff.trans unsigned_eq_ok_iff

/-- Bytes are read in a part of a class file exactly where that many lie ahead. -/
theorem ClassFile.step_take_iff {size : Int} :
    (liftM (Cursor.take size) : ClassFile.Part Bytes) c = .ok (bs, c') ↔
      (bs.length : Int) = size ∧ c.Advances bs c' :=
  mapFault_eq_ok_iff.trans take_eq_ok

end Steps

section Read

variable {f : Field} {fields : List Field} {bs : Bytes} {o : Operand} {operands : List Operand}
  {k : Constant} {c c' : Cursor} {slot : Nat}

namespace Field

/-- What a field holds is read from its bytes. -/
theorem Holds.reads (h : f.Holds bs o) : Reads f.read bs o := by
  cases h with
  | unsigned hlt => exact (reads_step (reads_ofNat hlt)).map fun n : Nat => Operand.number n
  | signed hlow hhigh => exact (reads_step (reads_ofInt hlow hhigh)).map Operand.number
  | @text data hlt =>
    have hdata := (reads_step (reads_take data)).map fun bs => Operand.text (Utf8.decode bs)
    exact (reads_step (reads_ofNat hlt)).bind hdata

/-- Operands are read from the bytes that hold them. -/
theorem HoldEach.reads (h : HoldEach fields bs operands) : Reads (readEach fields) bs operands := by
  induction h with
  | nil => exact reads_pure []
  | cons h _ ih => exact h.reads.bind (ih.map (_ :: ·))

/-- What is read from a field its bytes hold. -/
theorem exists_holds (h : f.read c = .ok (o, c')) : ∃ bs, c.Advances bs c' ∧ f.Holds bs o := by
  cases f with
  | unsigned width =>
    obtain ⟨n, c₁, hn, h⟩ := bind_eq_ok_iff.1 h
    obtain ⟨rfl, rfl⟩ := pure_eq_ok_iff.1 h
    obtain ⟨hlt, hadvances⟩ := step_unsigned_iff.1 hn
    exact ⟨_, hadvances, .unsigned hlt⟩
  | signed width =>
    obtain ⟨n, c₁, hn, h⟩ := bind_eq_ok_iff.1 h
    obtain ⟨rfl, rfl⟩ := pure_eq_ok_iff.1 h
    obtain ⟨⟨hlow, hhigh⟩, hadvances⟩ := signed_eq_ok_iff.1 (mapFault_eq_ok_iff.1 hn)
    exact ⟨_, hadvances, .signed hlow hhigh⟩
  | text =>
    obtain ⟨length, c₁, hlength, h⟩ := bind_eq_ok_iff.1 h
    obtain ⟨data, c₂, hdata, h⟩ := bind_eq_ok_iff.1 h
    obtain ⟨rfl, rfl⟩ := pure_eq_ok_iff.1 h
    obtain ⟨hlt, hadvances⟩ := step_unsigned_iff.1 hlength
    obtain ⟨hsize, hadvances'⟩ := step_take_iff.1 hdata
    obtain rfl : data.length = length := Int.ofNat.inj hsize
    exact ⟨_, hadvances.trans hadvances', .text hlt⟩

/-- Operands that are read are held by the bytes that the cursor advances past. -/
theorem exists_holdEach (hp : c.pos ≤ c.length) (h : readEach fields c = .ok (operands, c')) :
    ∃ bs, c.Advances bs c' ∧ HoldEach fields bs operands := by
  induction fields generalizing c operands with
  | nil =>
    obtain ⟨rfl, rfl⟩ := pure_eq_ok_iff.1 h
    exact ⟨[], .refl hp, .nil⟩
  | cons f fields ih =>
    obtain ⟨o, c₁, ho, h⟩ := bind_eq_ok_iff.1 h
    obtain ⟨rest, c₂, hrest, h⟩ := bind_eq_ok_iff.1 h
    obtain ⟨rfl, rfl⟩ := pure_eq_ok_iff.1 h
    obtain ⟨bs, hadvances, hholds⟩ := exists_holds ho
    obtain ⟨bs', hadvances', heach⟩ := ih (hadvances.length_eq ▸ hadvances.pos_le) hrest
    exact ⟨bs ++ bs', hadvances.trans hadvances', .cons hholds heach⟩

end Field

namespace ClassFile

/-- Behind a tag the reader reads the fields that the tag asks for. -/
theorem readConstant_number (slot : Nat) (t : Tag) :
    readConstant slot t.number = do return t.constant (← Field.readEach t.layout) := by
  unfold readConstant
  rw [Tag.ofNumber?_number]
  cases t <;>
    simp [Tag.layout, Field.readEach, Field.read, Tag.constant, Constant.ofOperands, u1, u2, u4, i4,
      i8]

/-- A constant that is read is spelled by the bytes that the cursor advances past. -/
theorem exists_spelledBy (h : (do readConstant slot (← Cursor.u1) : Part Constant) c = .ok (k, c')) :
    ∃ bs, c.Advances bs c' ∧ k.SpelledBy bs := by
  obtain ⟨number, c₁, hnumber, h⟩ := bind_eq_ok_iff.1 h
  obtain ⟨-, hadvances⟩ := step_unsigned_iff.1 hnumber
  cases htag : Tag.ofNumber? number with
  | none =>
    simp only [readConstant, htag] at h
    exact absurd h throw_ne_ok
  | some t =>
    obtain rfl : t.number = number := Int.ofNat.inj (by simpa using List.find?_some htag)
    rw [readConstant_number] at h
    obtain ⟨operands, c₂, hoperands, h⟩ := bind_eq_ok_iff.1 h
    obtain ⟨rfl, rfl⟩ := pure_eq_ok_iff.1 h
    obtain ⟨bs, hadvances', heach⟩ :=
      Field.exists_holdEach (hadvances.length_eq ▸ hadvances.pos_le) hoperands
    exact ⟨_, hadvances.trans hadvances', .intro heach⟩

end ClassFile

namespace Constant

/-- A constant is read from the bytes that spell it, in whatever slot. -/
theorem SpelledBy.reads (h : k.SpelledBy bs) (slot : Nat) :
    Reads (do readConstant slot (← Cursor.u1) : ClassFile.Part Constant) bs k := by
  obtain @⟨t, bs, operands, h⟩ := h
  have htag : Reads (liftM Cursor.u1 : ClassFile.Part Nat) (Bytes.ofNat 1 t.number) t.number :=
    reads_step (reads_ofNat t.number_lt)
  refine htag.bind ?_
  rw [readConstant_number]
  exact h.reads.map t.constant

/-- What stands in the fields that a tag asks for makes a constant of the tag. -/
theorem tag_constant {t : Tag} (h : Field.HoldEach t.layout bs operands) :
    (t.constant operands).tag = t.number := by
  cases t with
  | nameAndType | methodHandle | dynamic | invokeDynamic =>
    obtain _ | ⟨⟨-⟩, _ | ⟨⟨-⟩, ⟨⟩⟩⟩ := h
    rfl
  | member kind =>
    obtain _ | ⟨⟨-⟩, _ | ⟨⟨-⟩, ⟨⟩⟩⟩ := h
    cases kind <;> rfl
  | _ =>
    obtain _ | ⟨⟨-⟩, ⟨⟩⟩ := h
    rfl

/-! ## The shape of a constant -/

/-- A number fits into the two bytes of an index. -/
def IsIndex (i : Int) : Prop := 0 ≤ i ∧ i < 0x10000

/-- A constant is one of the format's kinds, and its numbers fit into their fields. -/
def IsShaped : Constant → Prop
  | utf8 _ | float _ | double _ => True
  | integer value => -0x80000000 ≤ value ∧ value < 0x80000000
  | long value => -0x8000000000000000 ≤ value ∧ value < 0x8000000000000000
  | classRef i | string i | methodType i | moduleRef i | packageRef i => IsIndex i
  | member _ i j | nameAndType i j | dynamic i j | invokeDynamic i j => IsIndex i ∧ IsIndex j
  | methodHandle kind i => (0 ≤ kind ∧ kind < 0x100) ∧ IsIndex i
  | other _ _ => False

/-- A number that fits into two bytes is an index. -/
theorem isIndex_of_lt {n : Nat} (h : n < Bytes.capacity 2) : IsIndex n := by
  have hcapacity : Bytes.capacity 2 = 0x10000 := rfl
  constructor <;> omega

/-- A method handle has the shape of one if its numbers fit into their fields. -/
theorem isShaped_methodHandle {kind n : Nat} (h : kind < Bytes.capacity 1)
    (h' : n < Bytes.capacity 2) : IsShaped (.methodHandle kind n) := by
  have hcapacity : Bytes.capacity 1 = 0x100 := rfl
  exact ⟨by omega, isIndex_of_lt h'⟩

/-- A number that fits into four bytes in two's complement is in the range of integers. -/
theorem isShaped_integer {i : Int} (hlow : -Bytes.capacity 4 ≤ 2 * i)
    (hhigh : 2 * i < Bytes.capacity 4) : IsShaped (.integer i) := by
  have hcapacity : Bytes.capacity 4 = 0x100000000 := rfl
  constructor <;> omega

/-- A number that fits into eight bytes in two's complement is in the range of long integers. -/
theorem isShaped_long {i : Int} (hlow : -Bytes.capacity 8 ≤ 2 * i)
    (hhigh : 2 * i < Bytes.capacity 8) : IsShaped (.long i) := by
  have hcapacity : Bytes.capacity 8 = 0x10000000000000000 := rfl
  constructor <;> omega

/-- **What is spelled is of the shape that its tag asks for.** -/
theorem SpelledBy.isShaped (h : k.SpelledBy bs) : k.IsShaped := by
  obtain @⟨t, bs, operands, h⟩ := h
  cases t with
  | utf8 | float | double =>
    obtain _ | ⟨⟨-⟩, ⟨⟩⟩ := h
    trivial
  | integer =>
    obtain _ | ⟨hholds, ⟨⟩⟩ := h
    cases hholds with
    | signed hlow hhigh => exact isShaped_integer hlow hhigh
  | long =>
    obtain _ | ⟨hholds, ⟨⟩⟩ := h
    cases hholds with
    | signed hlow hhigh => exact isShaped_long hlow hhigh
  | classRef | string | methodType | moduleRef | packageRef =>
    obtain _ | ⟨⟨hlt⟩, ⟨⟩⟩ := h
    exact isIndex_of_lt hlt
  | methodHandle =>
    obtain _ | ⟨⟨hlt⟩, _ | ⟨⟨hlt'⟩, ⟨⟩⟩⟩ := h
    exact isShaped_methodHandle hlt hlt'
  | nameAndType | dynamic | invokeDynamic =>
    obtain _ | ⟨⟨hlt⟩, _ | ⟨⟨hlt'⟩, ⟨⟩⟩⟩ := h
    exact ⟨isIndex_of_lt hlt, isIndex_of_lt hlt'⟩
  | member kind =>
    obtain _ | ⟨⟨hlt⟩, _ | ⟨⟨hlt'⟩, ⟨⟩⟩⟩ := h
    cases kind <;> exact ⟨isIndex_of_lt hlt, isIndex_of_lt hlt'⟩

end Constant

end Read

end Forwarder
