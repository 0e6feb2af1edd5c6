import Mathlib.Data.List.Basic
import Mathlib.Data.List.Induction
import Forwarder.Assembler.Pool
import Forwarder.Proofs.ConstantPool

/-!
# What additions do to a pool

A pool is only ever changed by `PoolBuilder.intern`. Whatever the constant is, the pool behind it
`Extends` the one before: the slots that are there stay, and its index remains `Consistent`. So an
index that `intern` hands out holds its constant (`holds_of_intern`), and it still does in every
extension of the pool (`Holds.mono`). A constant of the format's kinds makes the pool grow
(`PoolBuilder.Grows`), which keeps the layout `PoolBuilder.Sound` too. Every addition grows the pool
(`Addition.growing`), so a pool that was `Built` by additions is sound.
-/

namespace Forwarder

/-- The slots that a constant fills: its own, and an empty one behind an eight-byte number. -/
def Constant.cells (c : Constant) : List (Option Constant) :=
  if c.width = 2 then [some c, none] else [some c]

/-- A constant of one of the format's kinds. -/
def Constant.IsStandard (c : Constant) : Prop := ∀ tag operands, c ≠ .other tag operands

namespace PoolBuilder

/-- The pool as a reader sees it. -/
def pool (p : PoolBuilder) : ConstantPool := ⟨p.slots⟩

/-- A constant stands in a slot. -/
def Holds (p : PoolBuilder) (i : Nat) (c : Constant) : Prop := p.slots[i]? = some (some c)

/-- The index of a complete pool has every constant that stands in a slot. -/
def Complete (p : PoolBuilder) : Prop := ∀ ⦃c i⦄, p.Holds i c → p.index[c]? = some i

/-- The first slot of a consistent pool is empty, and its index points to its constants. -/
structure Consistent (p : PoolBuilder) : Prop where
  zero : p.slots.toList.head? = some none
  holds_of_index : ∀ {c i}, p.index[c]? = some i → p.Holds i c

/-- Behind the first slot a sound pool lists the cells of its constants, all of them of the format's
kinds, and its index points to them. -/
structure Sound (p : PoolBuilder) : Prop where
  layout : ∃ cs : List Constant,
    p.slots.toList = none :: cs.flatMap Constant.cells ∧ ∀ c ∈ cs, c.IsStandard
  holds_of_index : ∀ {c i}, p.index[c]? = some i → p.Holds i c

/-- The index of `q` has what that of `p` has. -/
def Recalls (q p : PoolBuilder) : Prop :=
  ∀ ⦃c : Constant⦄ ⦃i : Nat⦄, p.index[c]? = some i → q.index[c]? = some i

/-- `p'` keeps the slots of `p`, in front of its others, and recalls its index, and is consistent and
complete if `p` is. -/
structure Extends (p p' : PoolBuilder) : Prop where
  keeps : p.slots.toList <+: p'.slots.toList
  recalls : p'.Recalls p
  consistent : p.Consistent → p'.Consistent
  complete : p.Complete → p'.Complete

/-- `p'` extends `p` and is sound if `p` is. -/
structure Grows (p p' : PoolBuilder) : Prop extends p.Extends p' where
  sound : p.Sound → p'.Sound

section Grows

variable {p p₁ p₂ q : PoolBuilder} {c : Constant} {i : Nat}

theorem Extends.refl (p : PoolBuilder) : p.Extends p :=
  ⟨List.prefix_refl _, fun _ _ => id, id, id⟩

/-- What extends an extension of a pool extends the pool. -/
theorem Extends.trans (h : p.Extends p₁) (h' : p₁.Extends p₂) : p.Extends p₂ where
  keeps := h.keeps.trans h'.keeps
  recalls := fun _ _ hc => h'.recalls (h.recalls hc)
  consistent := fun hp => h'.consistent (h.consistent hp)
  complete := fun hp => h'.complete (h.complete hp)

theorem Grows.refl (p : PoolBuilder) : p.Grows p := ⟨.refl p, id⟩

/-- What a pool grows to grows on. -/
theorem Grows.trans (h : p.Grows p₁) (h' : p₁.Grows p₂) : p.Grows p₂ :=
  ⟨h.toExtends.trans h'.toExtends, fun hp => h'.sound (h.sound hp)⟩

/-- What stands in a slot stays there when the pool is extended. -/
theorem Holds.mono (h : p.Holds i c) (hext : p.Extends p₁) : p₁.Holds i c := by
  obtain ⟨more, hmore⟩ := hext.keeps
  unfold Holds at h ⊢
  rw [← Array.getElem?_toList] at h ⊢
  obtain ⟨hi, -⟩ := List.getElem?_eq_some_iff.1 h
  rw [← hmore, List.getElem?_append_left hi, h]

/-- A sound pool is consistent. -/
theorem Sound.consistent (hp : p.Sound) : p.Consistent := by
  obtain ⟨⟨cs, hcs, -⟩, hindex⟩ := hp
  exact ⟨by rw [hcs, List.head?_cons], hindex⟩

/-- No two slots of a complete pool hold the same constant. -/
theorem Complete.eq_of_holds {j : Nat} (hp : p.Complete) (hi : p.Holds i c) (hj : p.Holds j c) :
    i = j :=
  Option.some.inj ((hp hi).symm.trans (hp hj))

/-- The first slot of a consistent pool holds nothing. -/
theorem Consistent.ne_zero (hp : p.Consistent) (h : p.Holds i c) : i ≠ 0 := by
  rintro rfl
  have hzero := hp.zero
  unfold Holds at h
  rw [← Array.getElem?_toList, ← List.head?_eq_getElem?, hzero] at h
  cases h

/-- The constant that a consistent pool holds under an index is found there. -/
theorem Consistent.entry_eq (hp : p.Consistent) (h : p.Holds i c) : p.pool.entry i = .ok c := by
  have hi := hp.ne_zero h
  exact ConstantPool.entry_eq_ok_iff.2 ⟨by omega, h⟩

end Grows

section Intern

variable {p : PoolBuilder} {c : Constant}

/-- A constant is put into the slots behind the last one. -/
theorem toList_slots_append (p : PoolBuilder) (c : Constant) :
    (p.append c).slots.toList = p.slots.toList ++ c.cells := by
  obtain ⟨slots, index⟩ := p
  show (if c.width = 2 then (slots.push (some c)).push none else slots.push (some c)).toList =
    slots.toList ++ c.cells
  unfold Constant.cells
  split <;> simp

theorem index_append (p : PoolBuilder) (c : Constant) :
    (p.append c).index = p.index.insert c p.size := rfl

/-- A constant that is put behind the last slot stands in the slot of that number. -/
theorem holds_append (p : PoolBuilder) (c : Constant) : (p.append c).Holds p.size c := by
  unfold Holds
  rw [← Array.getElem?_toList, toList_slots_append, List.getElem?_append_right (by simp [size])]
  unfold Constant.cells
  split <;> simp [size]

/-- The empty pool is sound. -/
theorem sound_empty : empty.Sound where
  layout := ⟨[], rfl, by simp⟩
  holds_of_index := by
    intro c i h
    simp [empty] at h

/-- A constant that stands in a slot after an append stood there before, or is the one that was
appended. -/
theorem holds_append_iff {d : Constant} {j : Nat} :
    (p.append c).Holds j d ↔ p.Holds j d ∨ j = p.size ∧ d = c := by
  constructor
  · intro h
    unfold Holds at h ⊢
    rw [← Array.getElem?_toList, toList_slots_append] at h
    rcases Nat.lt_or_ge j p.slots.toList.length with hj | hj
    · rw [List.getElem?_append_left hj, Array.getElem?_toList] at h
      exact .inl h
    · rw [List.getElem?_append_right hj] at h
      -- of the cells of a constant only the first one holds something
      have hcell : c.cells[0]? = some (some c) ∧ ∀ k, c.cells[k + 1]? ≠ some (some d) := by
        unfold Constant.cells
        split <;> simp [List.getElem?_cons]
      cases hk : j - p.slots.toList.length with
      | zero =>
        rw [hk, hcell.1] at h
        cases h
        rw [Array.length_toList] at hk hj
        exact .inr ⟨Nat.le_antisymm (Nat.le_of_sub_eq_zero hk) hj, rfl⟩
      | succ k => exact absurd (hk ▸ h) (hcell.2 k)
  · rintro (h | ⟨rfl, rfl⟩)
    · unfold Holds at h ⊢
      rw [← Array.getElem?_toList] at h ⊢
      obtain ⟨hj, -⟩ := List.getElem?_eq_some_iff.1 h
      rw [toList_slots_append, List.getElem?_append_left hj, h]
    · exact holds_append p d

/-- The empty pool is complete. -/
theorem complete_empty : empty.Complete := by
  intro c i h
  obtain ⟨hi, hc⟩ := Array.getElem?_eq_some_iff.1 h
  simp [empty] at hc

/-- Appending a constant that is not in its index extends a pool. -/
theorem extends_append (hc : p.index[c]? = none) : p.Extends (p.append c) where
  keeps := ⟨c.cells, (toList_slots_append p c).symm⟩
  recalls := by
    intro d j h
    have hd : c ≠ d := by
      rintro rfl
      cases hc.symm.trans h
    rw [index_append, Std.HashMap.getElem?_insert, if_neg (by simpa using hd), h]
  consistent := by
    intro hp
    refine ⟨?_, fun {d j} h => ?_⟩
    · rw [toList_slots_append, List.head?_append, hp.zero]
      rfl
    · rw [index_append, Std.HashMap.getElem?_insert] at h
      rw [holds_append_iff]
      split at h
      · rename_i hd
        cases h
        exact .inr ⟨rfl, (eq_of_beq hd).symm⟩
      · exact .inl (hp.holds_of_index h)
  complete := by
    intro hp d j h
    rw [index_append, Std.HashMap.getElem?_insert]
    rcases holds_append_iff.1 h with h | ⟨rfl, rfl⟩
    · have hd : c ≠ d := by
        rintro rfl
        cases hc.symm.trans (hp h)
      rw [if_neg (by simpa using hd), hp h]
    · rw [if_pos (beq_self_eq_true d)]

/-- Appending a constant of the format's kinds that is not in its index keeps a pool sound. -/
theorem grows_append (hc : c.IsStandard) (hnone : p.index[c]? = none) : p.Grows (p.append c) := by
  refine ⟨extends_append hnone, fun hp => ?_⟩
  have hconsistent := (extends_append hnone).consistent hp.consistent
  obtain ⟨⟨cs, hcs, hall⟩, -⟩ := hp
  refine ⟨⟨cs ++ [c], ?_, ?_⟩, hconsistent.holds_of_index⟩
  · rw [toList_slots_append, hcs, List.flatMap_append, List.flatMap_singleton, List.cons_append]
  · simpa [or_imp, forall_and] using ⟨hall, hc⟩

/-- Interning any constant extends the pool. -/
theorem extends_intern (c : Constant) (p : PoolBuilder) : p.Extends (intern c p).2 := by
  unfold intern
  split
  · exact .refl p
  · rename_i hnone
    exact extends_append hnone

/-- The index that interning a constant gives holds it. -/
theorem holds_of_intern (hp : p.Consistent) : (intern c p).2.Holds (intern c p).1 c := by
  unfold intern
  split
  · rename_i i hi
    exact hp.holds_of_index hi
  · exact holds_append p c

/-- A constant that has been interned is found again, in every pool that recalls the index behind
it. -/
theorem intern_of_recalls {q : PoolBuilder} (h : q.Recalls (intern c p).2) :
    intern c q = ((intern c p).1, q) := by
  have hindex : (intern c p).2.index[c]? = some (intern c p).1 := by
    unfold intern
    split
    · assumption
    · rw [index_append, Std.HashMap.getElem?_insert_self]
  rw [intern, h hindex]

/-- Interning a constant grows the pool, and the index that it gives holds the constant. -/
theorem intern_spec (hc : c.IsStandard) (p : PoolBuilder) :
    p.Grows (intern c p).2 ∧ (p.Consistent → (intern c p).2.Holds (intern c p).1 c) := by
  refine ⟨?_, holds_of_intern⟩
  unfold intern
  split
  · exact .refl p
  · rename_i hnone
    exact grows_append hc hnone

/-- The pool after constants have been interned one after the other, of the format's kinds or
not. -/
def internAll (p : PoolBuilder) (cs : List Constant) : PoolBuilder :=
  cs.foldl (fun p c => (intern c p).2) p

/-- However many constants are interned, they extend the pool. -/
theorem extends_internAll (p : PoolBuilder) (cs : List Constant) : p.Extends (p.internAll cs) := by
  induction cs generalizing p with
  | nil => exact .refl p
  | cons c cs ih => exact (extends_intern c p).trans (ih (intern c p).2)

/-- A pool that is filled by interning constants is consistent. -/
theorem consistent_internAll (cs : List Constant) : (empty.internAll cs).Consistent :=
  (extends_internAll empty cs).consistent sound_empty.consistent

end Intern

/-! ## Pools of listed constants -/

section OfList

variable {c : Constant} {cs : List Constant}

/-- The pool that constants have been appended to, one after the other. -/
def ofList (cs : List Constant) : PoolBuilder := cs.foldl (fun p c => p.append c) empty

/-- The slot of a constant among constants that begin in slot `n`; the slot behind them if it is
none of them. -/
def slotIn (c : Constant) : (cs : List Constant) → (n : Nat) → Nat
  | [], n => n
  | d :: cs, n => if d = c then n else slotIn c cs (n + d.cells.length)

/-- The last constant of a list is put behind the others. -/
theorem ofList_append (cs : List Constant) (c : Constant) :
    ofList (cs ++ [c]) = (ofList cs).append c := by
  rw [ofList, List.foldl_append]
  rfl

/-- A constant that is not among the first ones stands behind them. -/
theorem slotIn_append_of_not_mem (h : c ∉ cs) (ds : List Constant) (n : Nat) :
    slotIn c (cs ++ ds) n = slotIn c ds (n + (cs.flatMap Constant.cells).length) := by
  induction cs generalizing n with
  | nil => rfl
  | cons d cs ih =>
    obtain ⟨hd, hcs⟩ := List.ne_and_not_mem_of_not_mem_cons h
    rw [List.cons_append, slotIn, if_neg hd.symm, ih hcs, List.flatMap_cons, List.length_append,
      Nat.add_assoc]

/-- A constant that is there keeps its slot. -/
theorem slotIn_append_of_mem (h : c ∈ cs) (d : Constant) (n : Nat) :
    slotIn c (cs ++ [d]) n = slotIn c cs n := by
  induction cs generalizing n with
  | nil => cases h
  | cons e cs ih =>
    rw [List.cons_append, slotIn, slotIn]
    split
    · rfl
    · rename_i he
      exact ih (List.mem_of_ne_of_mem (Ne.symm he) h) _

/-- A pool has one slot more than its constants take up. -/
theorem size_ofList (cs : List Constant) :
    (ofList cs).size = 1 + (cs.flatMap Constant.cells).length := by
  induction cs using List.reverseRecOn with
  | nil => rfl
  | append_singleton cs c ih =>
    rw [size] at ih ⊢
    rw [ofList_append, ← Array.length_toList, toList_slots_append, List.length_append,
      Array.length_toList, ih, List.flatMap_append, List.length_append, List.flatMap_singleton,
      Nat.add_assoc]

/-- The index of a pool has exactly its constants, each under its first slot. -/
theorem index_ofList (hcs : cs.Nodup) :
    (ofList cs).index[c]? = if c ∈ cs then some (slotIn c cs 1) else none := by
  induction cs using List.reverseRecOn with
  | nil => simp [ofList, empty]
  | append_singleton cs d ih =>
    obtain ⟨hcs, -, hd⟩ := List.nodup_append.1 hcs
    rw [ofList_append, index_append, Std.HashMap.getElem?_insert, ih hcs]
    by_cases hdc : d = c
    · subst hdc
      have hmem : d ∉ cs := fun h => hd d h d List.mem_cons_self rfl
      rw [if_pos (beq_self_eq_true d), if_pos (List.mem_append_right _ List.mem_cons_self),
        slotIn_append_of_not_mem hmem, slotIn, if_pos rfl, size_ofList]
    · have hmem : c ∈ cs ++ [d] ↔ c ∈ cs := by simp [Ne.symm hdc]
      rw [if_neg (by simpa using hdc)]
      simp only [hmem]
      split
      · rename_i hc
        rw [slotIn_append_of_mem hc]
      · rfl

/-- Interning a constant of a list gives its slot, and any other is appended. -/
theorem intern_ofList (hcs : cs.Nodup) : intern c (ofList cs) =
    (slotIn c cs 1, ofList (if c ∈ cs then cs else cs ++ [c])) := by
  rw [intern, index_ofList hcs]
  by_cases hc : c ∈ cs
  · rw [if_pos hc, if_pos hc]
  · have hslot := slotIn_append_of_not_mem hc [] 1
    rw [List.append_nil, slotIn] at hslot
    rw [if_neg hc, if_neg hc, hslot, ofList_append, ← size_ofList]

/-- Interning one of listed constants in a pool of the first of them leaves a pool of the first of
them. -/
theorem intern_ofList_take {n k i : Nat} (hcs : cs.Nodup) (hslot : slotIn c (cs.take n) 1 = i)
    (htake : (if c ∈ cs.take n then cs.take n else cs.take n ++ [c]) = cs.take k) :
    intern c (ofList (cs.take n)) = (i, ofList (cs.take k)) := by
  rw [intern_ofList ((List.take_sublist n cs).nodup hcs), hslot, htake]

section Narrow

variable {j n : Nat} (hnodup : cs.Nodup) (hnarrow : ∀ d ∈ cs, d.cells.length = 1)

include hnodup hnarrow

/-- Constants that take one slot each stand in the slots of their places. -/
theorem slotIn_eq (hj : cs[j]? = some c) (m : Nat) : slotIn c cs m = m + j := by
  induction cs generalizing j m with
  | nil => cases hj
  | cons d cs ih =>
    obtain ⟨hd, hnodup⟩ := List.nodup_cons.1 hnodup
    obtain ⟨hwidth, hnarrow⟩ := List.forall_mem_cons.1 hnarrow
    cases j with
    | zero =>
      cases hj
      rw [slotIn, if_pos rfl, Nat.add_zero]
    | succ j =>
      have hj : cs[j]? = some c := hj
      have hne : d ≠ c := fun h => hd (h ▸ List.mem_of_getElem? hj)
      rw [slotIn, if_neg hne, hwidth, ih hnodup hnarrow hj]
      omega

/-- A constant that has been interned is found in its slot. -/
theorem intern_take_of_lt (hj : cs[j]? = some c) (hlt : j < n) :
    intern c (ofList (cs.take n)) = (j + 1, ofList (cs.take n)) := by
  have htake : (cs.take n)[j]? = some c := by rw [List.getElem?_take_of_lt hlt, hj]
  have hnodup := (List.take_sublist n cs).nodup hnodup
  have hnarrow : ∀ d ∈ cs.take n, d.cells.length = 1 :=
    fun d hd => hnarrow d (List.mem_of_mem_take hd)
  rw [intern_ofList hnodup, if_pos (List.mem_of_getElem? htake), slotIn_eq hnodup hnarrow htake,
    Nat.add_comm]

/-- Constants that are interned one after the other get one slot after the other. -/
theorem intern_take (hn : cs[n]? = some c) :
    intern c (ofList (cs.take n)) = (n + 1, ofList (cs.take (n + 1))) := by
  have htake : cs.take (n + 1) = cs.take n ++ [c] := by
    rw [List.take_add_one, hn, Option.toList_some]
  have hnodup' := (List.take_sublist (n + 1) cs).nodup hnodup
  have hmem : c ∉ cs.take n := by
    rw [htake] at hnodup'
    exact fun h => (List.nodup_append.1 hnodup').2.2 c h c List.mem_cons_self rfl
  have hslot : slotIn c (cs.take (n + 1)) 1 = 1 + n :=
    slotIn_eq hnodup' (fun d hd => hnarrow d (List.mem_of_mem_take hd))
      (by rw [List.getElem?_take_of_lt (Nat.lt_succ_self n), hn]) 1
  -- a constant has the slot behind all others whether it stands there already or not
  have hnone := slotIn_append_of_not_mem hmem [] 1
  rw [List.append_nil, slotIn] at hnone
  rw [htake, slotIn_append_of_not_mem hmem, slotIn, if_pos rfl, ← hnone] at hslot
  rw [intern_ofList ((List.take_sublist n cs).nodup hnodup), if_neg hmem, hslot, htake,
    Nat.add_comm]

end Narrow

end OfList

/-! ## The additions -/

section Additions

variable {p : PoolBuilder} {α β : Type}

/-- A sequence carries on with what its first part gives and leaves. -/
theorem run_bind {m : Pooling α} {f : α → Pooling β} {q : PoolBuilder} {a : α}
    {r : β × PoolBuilder} (h : m p = (a, q)) (h' : f a q = r) : (m >>= f) p = r := by
  show f (m p).1 (m p).2 = r
  rw [h]
  exact h'

section Run

variable {p₁ p₂ p' : PoolBuilder} {i j k : Nat}

/-- A class is added behind its name. -/
theorem run_classRef {name : String} (hname : intern (.utf8 name) p = (i, p₁))
    (hclass : intern (.classRef i) p₁ = (j, p')) : classRef name p = (j, p') :=
  run_bind hname hclass

/-- A name with a descriptor is added behind both of them. -/
theorem run_nameAndType {name descriptor : String} (hname : intern (.utf8 name) p = (i, p₁))
    (hdescriptor : intern (.utf8 descriptor) p₁ = (j, p₂))
    (hpair : intern (.nameAndType i j) p₂ = (k, p')) : nameAndType name descriptor p = (k, p') :=
  run_bind hname (run_bind hdescriptor hpair)

/-- A member is added behind its class and its name with the descriptor. -/
theorem run_member {kind : MemberKind} {owner name descriptor : String}
    (howner : classRef owner p = (i, p₁)) (hpair : nameAndType name descriptor p₁ = (j, p₂))
    (hmember : intern (.member kind i j) p₂ = (k, p')) :
    member kind owner name descriptor p = (k, p') :=
  run_bind howner (run_bind hpair hmember)

end Run

/-- A computation on pools that only makes them grow. -/
def Growing (m : Pooling α) : Prop := ∀ p : PoolBuilder, p.Grows (m p).2

/-- A computation that only makes pools grow can be followed by another one. -/
theorem Growing.bind {m : Pooling α} {f : α → Pooling β} (h : Growing m)
    (h' : ∀ a, Growing (f a)) : Growing (m >>= f) :=
  fun p => (h p).trans (h' (m p).1 (m p).2)

/-- To intern a standard constant only makes a pool grow. -/
theorem growing_intern {c : Constant} (hc : c.IsStandard) : Growing (intern c) :=
  fun p => (intern_spec hc p).1

theorem growing_utf8 (text : String) : Growing (utf8 text) := growing_intern nofun

theorem growing_classRef (name : String) : Growing (classRef name) :=
  (growing_utf8 name).bind fun _ => growing_intern nofun

theorem growing_nameAndType (name descriptor : String) : Growing (nameAndType name descriptor) :=
  (growing_utf8 name).bind fun _ => (growing_utf8 descriptor).bind fun _ => growing_intern nofun

/-- Every addition makes the pool grow. -/
theorem Addition.growing (a : Addition) : Growing a.perform := by
  cases a with
  | utf8 text => exact growing_utf8 text
  | integer value => exact growing_intern nofun
  | long value => exact growing_intern nofun
  | classRef name => exact growing_classRef name
  | string text => exact (growing_utf8 text).bind fun _ => growing_intern nofun
  | nameAndType name descriptor => exact growing_nameAndType name descriptor
  | member kind owner name descriptor =>
    exact (growing_classRef owner).bind fun _ =>
      (growing_nameAndType name descriptor).bind fun _ => growing_intern nofun
  | methodHandle kind reference => exact growing_intern nofun
  | methodType descriptor => exact (growing_utf8 descriptor).bind fun _ => growing_intern nofun
  | invokeDynamic bootstrap name descriptor =>
    exact (growing_nameAndType name descriptor).bind fun _ => growing_intern nofun

/-- A pool that additions alone have filled, in any order and number. -/
inductive Built : PoolBuilder → Prop
  | empty : Built empty
  | add {p : PoolBuilder} (a : Addition) : Built p → Built (a.perform p).2

/-- A pool that additions alone have filled is sound. -/
theorem Built.sound (h : p.Built) : p.Sound := by
  induction h with
  | empty => exact sound_empty
  | add a h ih => exact (a.growing _).sound ih

/-- The index of a text holds it. -/
theorem utf8_spec (text : String) (p : PoolBuilder) :
    p.Grows (utf8 text p).2 ∧ (p.Consistent → (utf8 text p).2.Holds (utf8 text p).1 (.utf8 text)) :=
  intern_spec (c := .utf8 text) nofun p

/-- The index of a class holds a reference to its name. -/
theorem classRef_spec (name : String) (p : PoolBuilder) :
    p.Grows (classRef name p).2 ∧ (p.Consistent → ∃ j : Nat,
      (classRef name p).2.Holds j (.utf8 name) ∧
        (classRef name p).2.Holds (classRef name p).1 (.classRef j)) := by
  obtain ⟨hg, hname⟩ := utf8_spec name p
  obtain ⟨hg', hclass⟩ := intern_spec (c := .classRef (utf8 name p).1)
    (by simp [Constant.IsStandard]) (utf8 name p).2
  refine ⟨hg.trans hg', fun hp => ⟨_, (hname hp).mono hg'.toExtends, ?_⟩⟩
  exact hclass (hg.consistent hp)

end Additions

end PoolBuilder

end Forwarder
