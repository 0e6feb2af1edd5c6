import Forwarder.Proofs.Assembler.Pool
import Forwarder.Proofs.ClassFile.Spelling

/-!
# The slots of a pool

The constants of a class file stand one behind the other, each with the bytes that spell it, as long
as their slots lie below the number that the class file declares (`Fills`). The reader finds them
(`exists_parts_of_readConstants`), puts their cells into the pool, and reads nothing else
(`Fills.reads`). `ConstantPool.LaidOut` says what has which slot without going through the cells, and
`readPool_eq_ok_iff_laidOut` which byte strings are read as which pools.
-/

namespace Forwarder

open Cursor

/-! ## The cells of constants -/

namespace Constant

/-- The number of slots that a constant takes: two for an eight-byte number, one for any other. -/
def slotWidth : Constant → Nat
  | long _ | double _ => 2
  | _ => 1

/-- The slot behind constants, of which the first one begins in slot 1. -/
def slotAfter : List Constant → Nat
  | [] => 1
  | k :: ks => k.slotWidth + slotAfter ks

section Cells

variable {k : Constant} {ks : List Constant} {i : Nat}

/-- A constant takes up one slot or two. -/
theorem slotWidth_eq (k : Constant) : k.slotWidth = 1 ∨ k.slotWidth = 2 := by
  cases k <;> simp [slotWidth]

/-- A constant of the format takes the slots that its tag asks for. -/
theorem IsShaped.width_eq (h : k.IsShaped) : k.width = k.slotWidth := by
  cases k with
  | other tag operands => exact h.elim
  | member kind => cases kind <;> rfl
  | _ => rfl

/-- No constant takes up no slot. -/
theorem width_pos (k : Constant) : 0 < k.width := by
  unfold width
  split <;> decide

/-- A constant has as many slots as it takes up. -/
theorem length_cells (k : Constant) : k.cells.length = k.width := by
  unfold cells width
  split <;> simp_all

/-- The first cell of a constant holds it, and the other one is empty. -/
theorem getElem?_cells_eq_some {k' : Constant} :
    k'.cells[i]? = some (some k) ↔ i = 0 ∧ k' = k := by
  unfold cells
  split <;> rcases i with _ | _ | i <;> simp

/-- The slot in front of all constants is not used. -/
theorem slotAfter_pos (ks : List Constant) : 0 < slotAfter ks := by
  induction ks with
  | nil => exact Nat.one_pos
  | cons k ks ih => exact Nat.add_pos_right _ ih

/-- One more constant moves the slot behind all of them by its width. -/
theorem slotAfter_concat (ks : List Constant) (k : Constant) :
    slotAfter (ks ++ [k]) = slotAfter ks + k.slotWidth := by
  induction ks with
  | nil => exact Nat.add_comm ..
  | cons k' ks ih => rw [List.cons_append, slotAfter, slotAfter, ih, Nat.add_assoc]

/-- The slots of constants of their shapes end where the constants do. -/
theorem length_flatMap_cells (h : ∀ k ∈ ks, k.IsShaped) :
    1 + (ks.flatMap cells).length = slotAfter ks := by
  induction ks with
  | nil => rfl
  | cons k ks ih =>
    obtain ⟨hk, hks⟩ := List.forall_mem_cons.1 h
    rw [List.flatMap_cons, List.length_append, length_cells, hk.width_eq, slotAfter, ← ih hks]
    exact Nat.add_left_comm ..

/-- The cells of constants hold each of them behind the slots that the ones before it take. -/
theorem getElem?_flatMap_cells_eq_some :
    (ks.flatMap cells)[i]? = some (some k) ↔
      ∃ before after, ks = before ++ k :: after ∧ i = (before.flatMap cells).length := by
  induction ks generalizing i with
  | nil => simp
  | cons k' ks ih =>
    rw [List.flatMap_cons]
    constructor
    · intro h
      by_cases hi : i < k'.cells.length
      · rw [List.getElem?_append_left hi] at h
        obtain ⟨rfl, rfl⟩ := getElem?_cells_eq_some.1 h
        exact ⟨[], ks, rfl, rfl⟩
      · rw [List.getElem?_append_right (Nat.not_lt.1 hi)] at h
        obtain ⟨before, after, rfl, hbefore⟩ := ih.1 h
        refine ⟨k' :: before, after, rfl, ?_⟩
        rw [List.flatMap_cons, List.length_append]
        omega
    · rintro ⟨before, after, hks, rfl⟩
      cases before with
      | nil =>
        cases hks
        have hpos : 0 < k.cells.length := k.length_cells ▸ k.width_pos
        exact (List.getElem?_append_left hpos).trans (getElem?_cells_eq_some.2 ⟨rfl, rfl⟩)
      | cons _ before =>
        cases hks
        rw [List.flatMap_cons, List.length_append, List.getElem?_append_right (by omega),
          Nat.add_sub_cancel_left]
        exact ih.2 ⟨before, after, rfl, rfl⟩

/-- The first slot of constants holds one of them. -/
theorem getElem?_flatMap_cells_zero : (ks.flatMap cells)[0]? ≠ some none := by
  cases ks with
  | nil => simp
  | cons k ks =>
    rw [List.flatMap_cons, cells]
    split <;> simp

/-- A cell is empty only behind a constant that takes two of them. -/
theorem getElem?_flatMap_cells_eq_none :
    (ks.flatMap cells)[i + 1]? = some none ↔
      ∃ k, (ks.flatMap cells)[i]? = some (some k) ∧ k.width = 2 := by
  induction ks generalizing i with
  | nil => simp
  | cons k ks ih =>
    have hzero : (ks.flatMap cells)[0]? ≠ some none := getElem?_flatMap_cells_zero
    rw [List.flatMap_cons, cells]
    split <;> rcases i with _ | _ | i <;> simp_all

end Cells

end Constant

namespace ClassFile

/-! ## The constants that fill the slots -/

/-- The bytes of a constant, its tag among them. -/
def ReadsConstant (bs : Bytes) (k : Constant) : Prop :=
  ∀ slot, Reads (do readConstant slot (← Cursor.u1) : Part Constant) bs k

/-- Constants, each with its bytes, fill the slots of a pool from `slot` on up to `count`: there is
another one as long as its slot lies below that. -/
inductive Fills (count : Nat) : Nat → List (Bytes × Constant) → Prop where
  | nil {slot : Nat} (h : count ≤ slot) : Fills count slot []
  | cons {slot : Nat} {bs : Bytes} {k : Constant} {parts : List (Bytes × Constant)}
      (hlt : slot < count) (hk : ReadsConstant bs k) (h : Fills count (slot + k.width) parts) :
      Fills count slot ((bs, k) :: parts)

/-- The number of slots that constants take. -/
def widthOf : List (Bytes × Constant) → Nat
  | [] => 0
  | part :: parts => part.2.width + widthOf parts

section Fills

variable {count slot i : Nat} {bs : Bytes} {k : Constant} {c c' : Cursor}
  {parts before : List (Bytes × Constant)} {slots slots' : Array (Option Constant)}

/-- A constant is read from the bytes that spell it, and from no others. -/
theorem readsConstant_iff_spelledBy : ReadsConstant bs k ↔ k.SpelledBy bs := by
  refine ⟨fun h => ?_, Constant.SpelledBy.reads⟩
  obtain ⟨bs', hadvances, hspelled⟩ := exists_spelledBy (h 0 (advances_atEnd bs))
  have hrest := (advances_atEnd bs).rest_eq.symm.trans hadvances.rest_eq
  rwa [List.append_cancel_right hrest]

/-- The slots of constants are as many as these take up. -/
theorem length_flatMap_cells (parts : List (Bytes × Constant)) :
    (parts.flatMap fun part => part.2.cells).length = widthOf parts := by
  induction parts with
  | nil => rfl
  | cons part parts ih =>
    rw [List.flatMap_cons, List.length_append, ih, Constant.length_cells, widthOf]

/-- The cells of constants hold each of them in the slot behind those that the ones before it
take. -/
theorem getElem?_cells_eq_some_iff :
    (parts.flatMap fun part => part.2.cells)[i]? = some (some k) ↔
      ∃ before bs after, parts = before ++ (bs, k) :: after ∧ i = widthOf before := by
  have hmap : parts.flatMap (fun part => part.2.cells) =
      (parts.map Prod.snd).flatMap Constant.cells := (List.flatMap_map ..).symm
  rw [hmap, Constant.getElem?_flatMap_cells_eq_some]
  constructor
  · rintro ⟨_, _, hsplit, rfl⟩
    obtain ⟨before, behind, rfl, rfl, hbehind⟩ := List.map_eq_append_iff.1 hsplit
    obtain ⟨⟨bs, _⟩, after, rfl, rfl, rfl⟩ := List.map_eq_cons_iff.1 hbehind
    exact ⟨before, bs, after, rfl, by rw [List.flatMap_map, length_flatMap_cells]⟩
  · rintro ⟨before, bs, after, rfl, rfl⟩
    refine ⟨before.map Prod.snd, after.map Prod.snd, by simp, ?_⟩
    rw [List.flatMap_map, length_flatMap_cells]

/-- A constant that is put behind the last slot adds its width to them. -/
theorem size_append_cells (slots : Array (Option Constant)) (k : Constant) :
    (slots ++ k.cells).size = slots.size + k.width := by
  rw [← Array.length_toList, Array.toList_appendList, List.length_append, Array.length_toList,
    Constant.length_cells]

/-- Where slots are left, the next constant is read and its cells are put behind those at hand. -/
theorem readConstants_of_lt (hlt : slots.size < count) :
    readConstants count slots =
      (do readConstant slots.size (← Cursor.u1) : Part Constant) >>= fun k =>
        readConstants count (slots ++ k.cells) := by
  rw [readConstants, if_pos hlt, ← bind_assoc]
  congr 1
  funext k
  unfold Constant.cells
  split <;> simp

/-- The reader finds the constants that fill the slots, and their cells behind those at hand. -/
theorem exists_parts_of_readConstants (hp : c.pos ≤ c.length)
    (h : readConstants count slots c = .ok (slots', c')) :
    ∃ parts, Fills count slots.size parts ∧ c.Advances (parts.flatMap Prod.fst) c' ∧
      slots' = slots ++ parts.flatMap fun part => part.2.cells := by
  induction hfree : count - slots.size using Nat.strongRecOn generalizing slots c with
  | ind free ih =>
    by_cases hlt : slots.size < count
    · rw [readConstants_of_lt hlt] at h
      obtain ⟨k, c₁, hk, h⟩ := bind_eq_ok_iff.1 h
      obtain ⟨bs, hadvances, hspelled⟩ := exists_spelledBy hk
      have hsize := size_append_cells slots k
      have hpos := k.width_pos
      obtain ⟨parts, hfills, hadvances', rfl⟩ :=
        ih (count - (slots ++ k.cells).size) (by omega)
          (hadvances.length_eq ▸ hadvances.pos_le) h rfl
      refine ⟨(bs, k) :: parts, .cons hlt hspelled.reads (hsize ▸ hfills),
        hadvances.trans hadvances', ?_⟩
      exact Array.ext' (by simp [List.flatMap_cons])
    · rw [readConstants, if_neg hlt] at h
      obtain ⟨rfl, rfl⟩ := pure_eq_ok_iff.1 h
      exact ⟨[], .nil (Nat.not_lt.1 hlt), .refl hp, by simp⟩

/-- Constants that fill the slots are read from their bytes, one behind the other. -/
theorem Fills.reads (h : Fills count slot parts) (hsize : slots.size = slot) :
    Reads (readConstants count slots) (parts.flatMap Prod.fst)
      (slots ++ parts.flatMap fun part => part.2.cells) := by
  induction h generalizing slots with
  | nil hge =>
    rw [readConstants, if_neg (by omega)]
    simpa using reads_pure slots
  | @cons slot bs k parts hlt hk _ ih =>
    have hrest := ih ((size_append_cells slots k).trans (by rw [hsize]))
    have hassoc : slots ++ k.cells ++ parts.flatMap (fun part => part.2.cells) =
        slots ++ ((bs, k) :: parts).flatMap fun part => part.2.cells :=
      Array.ext' (by simp [List.flatMap_cons])
    rw [hassoc] at hrest
    rw [readConstants_of_lt (by omega), List.flatMap_cons]
    exact (hk slots.size).bind hrest

/-- Constants that stand one behind the other fill the slots as soon as the last one of them begins
below the number of slots and ends at it or behind it. -/
theorem fills_concat_iff {part : Bytes × Constant} :
    Fills count slot (before ++ [part]) ↔
      (∀ p ∈ before ++ [part], ReadsConstant p.1 p.2) ∧ slot + widthOf before < count ∧
        count ≤ slot + widthOf before + part.2.width := by
  induction before generalizing slot with
  | nil =>
    constructor
    · rintro (_ | ⟨hlt, hk, ⟨hge⟩⟩)
      exact ⟨by simpa using hk, hlt, hge⟩
    · rintro ⟨hk, hlt, hge⟩
      exact .cons hlt (hk part (by simp)) (.nil hge)
  | cons p before ih =>
    rw [widthOf, ← Nat.add_assoc]
    constructor
    · rintro (_ | ⟨hlt, hk, h⟩)
      obtain ⟨hbefore, hslots⟩ := ih.1 h
      exact ⟨List.forall_mem_cons.2 ⟨hk, hbefore⟩, hslots⟩
    · rintro ⟨hparts, hlt, hge⟩
      obtain ⟨hk, hbefore⟩ := List.forall_mem_cons.1 hparts
      exact .cons (by omega) hk (ih.2 ⟨hbefore, hlt, hge⟩)

end Fills

end ClassFile

/-! ## The layout of a pool -/

namespace Constant

/-- The last constant is an eight-byte number in the last slot that is declared, so that its other
slot lies behind that. -/
def Overruns (count : Nat) (ks : List Constant) : Prop :=
  ∃ k ∈ ks.getLast?, k.slotWidth = 2 ∧ slotAfter ks.dropLast + 1 = count

instance (count : Nat) (ks : List Constant) : Decidable (Overruns count ks) :=
  inferInstanceAs (Decidable (∃ k ∈ ks.getLast?, _))

/-- The number of slots of a pool that declares `count` of them. -/
def slotCount (count : Nat) (ks : List Constant) : Nat :=
  if Overruns count ks then count + 1 else max 1 count

/-- The second slot of a number in the last slot lies behind the slots that are declared. -/
example : slotCount 2 [.long 7] = 3 ∧ slotCount 3 [.long 7] = 3 := by decide

end Constant

/-- A pool holds constants, one behind the other from slot 1 on, each of the shape that its tag asks
for. Its other slots are empty: the first one, and those directly behind an eight-byte number. -/
structure ConstantPool.LaidOut (pool : ConstantPool) (ks : List Constant) : Prop where
  zero : pool.slots[0]? = some none
  holds_iff : ∀ {i : Nat} {k : Constant}, pool.slots[i]? = some (some k) ↔
    ∃ before after, ks = before ++ k :: after ∧ i = Constant.slotAfter before
  empty_iff : ∀ {i : Nat}, pool.slots[i + 1]? = some none ↔
    ∃ k, pool.slots[i]? = some (some k) ∧ k.slotWidth = 2
  isShaped : ∀ {i : Nat} {k : Constant}, pool.slots[i]? = some (some k) → k.IsShaped

section Layout

variable {pool pool' : ConstantPool} {count i : Nat} {k : Constant} {ks : List Constant}
  {parts : List (Bytes × Constant)} {c c' : Cursor}

/-- A slot is told by what it holds, and by whether it is empty. -/
theorem slot_ext {x y : Option (Option Constant)}
    (hsome : ∀ k, x = some (some k) ↔ y = some (some k)) (hnone : x = some none ↔ y = some none) :
    x = y := by
  rcases x with _ | _ | k
  · rcases y with _ | _ | k
    · rfl
    · cases hnone.2 rfl
    · cases (hsome k).2 rfl
  · exact (hnone.1 rfl).symm
  · exact ((hsome k).1 rfl).symm

namespace ConstantPool

/-- The constants of a pool determine it. -/
theorem LaidOut.unique (h : pool.LaidOut ks) (h' : pool'.LaidOut ks) : pool = pool' := by
  have hslots : pool.slots = pool'.slots := by
    refine Array.ext_getElem? fun i => ?_
    cases i with
    | zero => exact h.zero.trans h'.zero.symm
    | succ i =>
      have hsome (i : Nat) (k : Constant) :
          pool.slots[i]? = some (some k) ↔ pool'.slots[i]? = some (some k) :=
        h.holds_iff.trans h'.holds_iff.symm
      refine slot_ext (hsome (i + 1)) ?_
      simp only [h.empty_iff, h'.empty_iff, hsome]
  cases pool
  cases pool'
  exact congrArg ConstantPool.mk hslots

/-- The cells of constants, behind an empty one, are laid out. -/
theorem LaidOut.of_toList (hks : ∀ k ∈ ks, k.IsShaped)
    (h : pool.slots.toList = none :: ks.flatMap Constant.cells) : pool.LaidOut ks := by
  have hzero : pool.slots[0]? = some none := by rw [← Array.getElem?_toList, h]; rfl
  have hsucc (i : Nat) : pool.slots[i + 1]? = (ks.flatMap Constant.cells)[i]? := by
    rw [← Array.getElem?_toList, h, List.getElem?_cons_succ]
  have hholds {i : Nat} {k : Constant} : pool.slots[i]? = some (some k) ↔
      ∃ before after, ks = before ++ k :: after ∧ i = Constant.slotAfter before := by
    cases i with
    | zero =>
      refine iff_of_false (by simp [hzero]) ?_
      rintro ⟨before, after, -, hafter⟩
      exact absurd hafter.symm (Nat.ne_of_gt (Constant.slotAfter_pos before))
    | succ i =>
      rw [hsucc, Constant.getElem?_flatMap_cells_eq_some]
      refine exists_congr fun before => exists_congr fun after => and_congr_right fun hsplit => ?_
      have hbefore : ∀ k ∈ before, k.IsShaped := fun k hk => hks k (hsplit ▸ by simp [hk])
      rw [← Constant.length_flatMap_cells hbefore]
      omega
  have hshaped {i : Nat} {k : Constant} (hk : pool.slots[i]? = some (some k)) : k.IsShaped := by
    obtain ⟨before, after, hsplit, -⟩ := hholds.1 hk
    exact hks k (hsplit ▸ by simp)
  refine ⟨hzero, hholds, ?_, hshaped⟩
  intro i
  have hwidth (k : Constant) : pool.slots[i]? = some (some k) ∧ k.width = 2 ↔
      pool.slots[i]? = some (some k) ∧ k.slotWidth = 2 :=
    and_congr_right fun hk => by rw [(hshaped hk).width_eq]
  simp only [← hwidth]
  cases i with
  | zero => simp [hsucc, hzero, Constant.getElem?_flatMap_cells_zero]
  | succ i => simp only [hsucc, Constant.getElem?_flatMap_cells_eq_none]

/-- A pool has as many slots as its constants take up. -/
theorem size_eq (hks : ∀ k ∈ ks, k.IsShaped)
    (h : pool.slots.toList = none :: ks.flatMap Constant.cells) :
    pool.size = Constant.slotAfter ks := by
  rw [size, ← Array.length_toList, h, List.length_cons, Nat.add_comm,
    Constant.length_flatMap_cells hks]

/-- A pool is laid out exactly if its slots are the cells of its constants, behind an empty one. -/
theorem laidOut_iff (hks : ∀ k ∈ ks, k.IsShaped) :
    pool.LaidOut ks ↔ pool.slots.toList = none :: ks.flatMap Constant.cells := by
  refine ⟨fun h => ?_, LaidOut.of_toList hks⟩
  have hcells : LaidOut ⟨(none :: ks.flatMap Constant.cells).toArray⟩ ks := .of_toList hks rfl
  rw [h.unique hcells]

end ConstantPool

namespace ClassFile

/-- Constants that are spelled are of their shapes. -/
theorem isShaped_of_spelledBy (h : ∀ part ∈ parts, part.2.SpelledBy part.1) :
    ∀ k ∈ parts.map Prod.snd, k.IsShaped := by
  rintro k hk
  obtain ⟨part, hpart, rfl⟩ := List.mem_map.1 hk
  exact (h part hpart).isShaped

/-- The width of constants that are spelled is where they end. -/
theorem widthOf_eq (h : ∀ part ∈ parts, part.2.SpelledBy part.1) :
    1 + widthOf parts = Constant.slotAfter (parts.map Prod.snd) := by
  rw [← length_flatMap_cells, ← Constant.length_flatMap_cells (isShaped_of_spelledBy h),
    List.flatMap_map]

/-- Constants fill the slots of a pool exactly when they are spelled by their bytes and take as many
slots as a pool of the declared number of slots has. -/
theorem fills_one_iff :
    Fills count 1 parts ↔ (∀ part ∈ parts, part.2.SpelledBy part.1) ∧
      Constant.slotAfter (parts.map Prod.snd) = Constant.slotCount count (parts.map Prod.snd) := by
  obtain rfl | ⟨before, part, rfl⟩ := List.eq_nil_or_concat' parts
  · have hfills : Fills count 1 [] ↔ count ≤ 1 := ⟨fun | .nil hge => hge, .nil⟩
    have hcount : Constant.slotCount count [] = max 1 count :=
      if_neg (by simp [Constant.Overruns])
    rw [hfills, List.map_nil, hcount, Constant.slotAfter]
    simp only [List.not_mem_nil, false_implies, implies_true, true_and]
    omega
  · simp only [fills_concat_iff, readsConstant_iff_spelledBy]
    refine and_congr_right fun hspelled => ?_
    have hbefore := widthOf_eq fun p hp => hspelled p (List.mem_append_left _ hp)
    have hwidth : part.2.width = part.2.slotWidth := (hspelled part (by simp)).isShaped.width_eq
    have hafter : Constant.slotAfter ((before ++ [part]).map Prod.snd) =
        1 + widthOf before + part.2.slotWidth := by
      rw [hbefore, List.map_append, List.map_singleton, Constant.slotAfter_concat]
    have hoverruns : Constant.Overruns count ((before ++ [part]).map Prod.snd) ↔
        part.2.slotWidth = 2 ∧ 1 + widthOf before + 1 = count := by
      simp [Constant.Overruns, hbefore]
    have hcases := part.2.slotWidth_eq
    rw [hafter, hwidth, Constant.slotCount]
    simp only [hoverruns]
    split <;> omega

/-- Behind the number of slots the constants that fill these are read as the pool of their cells. -/
theorem Fills.reads_pool (h : Fills count 1 parts) (hcount : count < 0x10000)
    (hslots : pool.slots.toList = none :: parts.flatMap fun part => part.2.cells) :
    Reads readPool (Bytes.ofNat 2 count ++ parts.flatMap Prod.fst) pool := by
  have hpool : pool = ⟨(#[none] : Array (Option Constant)) ++
      parts.flatMap fun part => part.2.cells⟩ := by
    cases pool
    exact congrArg ConstantPool.mk (Array.ext' (hslots.trans (by simp)))
  rw [hpool]
  exact (reads_step (reads_ofNat hcount)).bind ((h.reads rfl).map ConstantPool.mk)

/-- Constants that fill the slots stand behind the number of slots of a pool that is read. -/
theorem exists_fills_of_readPool (h : readPool c = .ok (pool, c')) :
    ∃ count parts, count < 0x10000 ∧ Fills count 1 parts ∧
      c.Advances (Bytes.ofNat 2 count ++ parts.flatMap Prod.fst) c' ∧
      pool.slots.toList = none :: parts.flatMap fun part => part.2.cells := by
  obtain ⟨count, c₁, hcount, h⟩ := bind_eq_ok_iff.1 h
  obtain ⟨slots, c₂, hread, h⟩ := bind_eq_ok_iff.1 h
  obtain ⟨rfl, rfl⟩ := pure_eq_ok_iff.1 h
  obtain ⟨hlt, hadvances⟩ := step_unsigned_iff.1 hcount
  obtain ⟨parts, hfills, hadvances', rfl⟩ := exists_parts_of_readConstants
    (hadvances.length_eq ▸ hadvances.pos_le) hread
  exact ⟨count, parts, hlt, hfills, hadvances.trans hadvances', by simp⟩

/-- **The layout of a pool that is read.** A pool is read from the declared number of its slots and
from constants behind it, one behind the other up to the end of the last one. It has as many slots
as are declared, and at least one, unless an eight-byte number begins in the last one of them and
takes another one. The pool holds these constants, each of the shape that its tag asks for, behind
the slots of those before it; the first slot and those behind eight-byte numbers are empty. -/
theorem readPool_eq_ok_iff_laidOut :
    readPool c = .ok (pool, c') ↔
      ∃ (count : Nat) (parts : List (Bytes × Constant)), count < 0x10000 ∧
        c.Advances (Bytes.ofNat 2 count ++ parts.flatMap Prod.fst) c' ∧
        (∀ part ∈ parts, part.2.SpelledBy part.1) ∧ pool.LaidOut (parts.map Prod.snd) ∧
        pool.size = Constant.slotCount count (parts.map Prod.snd) := by
  constructor
  · intro h
    obtain ⟨count, parts, hcount, hfills, hadvances, hslots⟩ := exists_fills_of_readPool h
    obtain ⟨hspelled, hafter⟩ := fills_one_iff.1 hfills
    rw [← List.flatMap_map] at hslots
    have hks := isShaped_of_spelledBy hspelled
    refine ⟨count, parts, hcount, hadvances, hspelled, .of_toList hks hslots, ?_⟩
    rw [ConstantPool.size_eq hks hslots, hafter]
  · rintro ⟨count, parts, hcount, hadvances, hspelled, hlaidOut, hsize⟩
    have hks := isShaped_of_spelledBy hspelled
    have hslots := (ConstantPool.laidOut_iff hks).1 hlaidOut
    have hfills : Fills count 1 parts :=
      fills_one_iff.2 ⟨hspelled, (ConstantPool.size_eq hks hslots).symm.trans hsize⟩
    exact hfills.reads_pool hcount (hslots.trans (by rw [List.flatMap_map])) hadvances

end ClassFile

end Layout

end Forwarder
