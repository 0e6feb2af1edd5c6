import Mathlib.Data.List.Forall2
import Forwarder.Proofs.ClassFile.Extent
import Forwarder.Proofs.ClassFile.Spelling
import Forwarder.Proofs.ConstantPool

/-!
# Where a class file refers to names

A class file refers to its own name and to the names and descriptors of its methods by indices,
which the reader looks up at once and does not keep. `readIndices` reads only these indices, and
`exists_indices_of_read` says that the names of a class are what the pool has at them.
-/

namespace Forwarder.ClassFile

open Cursor

/-- The indices by which a class file refers to its class constant, and to the name and the
descriptor of every method, in their order. -/
structure NameIndices where
  own : Nat
  methods : List (Nat × Nat)
  deriving Repr, DecidableEq

/-- The indices of the name and of the descriptor of the method at the cursor. -/
def readMethodIndices (pool : ConstantPool) : Part (Nat × Nat) := do
  let _ ← Cursor.u2
  let name ← Cursor.u2
  let descriptor ← Cursor.u2
  let _ ← readAttributes pool
  return (name, descriptor)

/-- The indices of names in the class file at the cursor. -/
def readIndices : Part NameIndices := do
  let _ ← Cursor.u4
  let _ ← Cursor.u2
  let _ ← Cursor.u2
  let pool ← readPool
  let _ ← Cursor.u2
  let own ← Cursor.u2
  let _ ← Cursor.u2
  let _ ← times (liftM Cursor.u2) (← Cursor.u2)
  let _ ← times (skipField pool) (← Cursor.u2)
  let methods ← times (readMethodIndices pool) (← Cursor.u2)
  return { own, methods }

section Read

variable {α β : Type} {pool : ConstantPool} {c c' : Cursor}

/-- The reader looks texts up as the pool does. -/
theorem utf8_eq_ok_iff {index : Int} {s : String} :
    utf8 pool index = .ok s ↔ pool.utf8 index = .ok s := by
  rw [ConstantPool.utf8_eq_ok_iff, utf8]
  cases h : pool.entry index with
  | error e => simp
  | ok k => cases k <;> simp

/-- The index of a class is not zero, and its name is looked up in the pool. -/
theorem className_eq_some_iff {index : Int} {s : String} :
    className pool index = .ok (some s) ↔ index ≠ 0 ∧ pool.className index = .ok s := by
  rw [ConstantPool.className_eq_ok_iff, className]
  split
  case isTrue hzero => simp [hzero]
  case isFalse hzero =>
  cases h : pool.entry index with
  | error e => simp
  | ok k =>
    cases k with
    | classRef j =>
      cases hj : utf8 pool j <;> simp [hzero, ← utf8_eq_ok_iff, hj, Except.map]
    | _ => simp

/-- A reader that goes the same way as another one does so as often as it is repeated. -/
theorem exists_times {r : Part α} {r' : Part β} {P : α → β → Prop}
    (h : ∀ ⦃c a c'⦄, r c = .ok (a, c') → ∃ b, r' c = .ok (b, c') ∧ P a b) {n : Nat}
    {found : List α} (hfound : times r n c = .ok (found, c')) :
    ∃ found', times r' n c = .ok (found', c') ∧ List.Forall₂ P found found' := by
  induction n generalizing c found with
  | zero =>
    obtain ⟨rfl, rfl⟩ := pure_eq_ok_iff.1 hfound
    exact ⟨[], rfl, .nil⟩
  | succ n ih =>
    obtain ⟨a, c₁, ha, hbehind⟩ := bind_eq_ok_iff.1 hfound
    obtain ⟨rest, c₂, hrest, hpure⟩ := bind_eq_ok_iff.1 hbehind
    obtain ⟨rfl, rfl⟩ := pure_eq_ok_iff.1 hpure
    obtain ⟨b, hb, hab⟩ := h ha
    obtain ⟨rest', hrest', hall⟩ := ih hrest
    have htail : (do return b :: (← times r' n) : Part (List β)) c₁ = .ok (b :: rest', c₂) :=
      bind_eq_ok_iff.2 ⟨rest', c₂, hrest', rfl⟩
    exact ⟨b :: rest', bind_eq_ok_iff.2 ⟨b, c₁, hb, htail⟩, .cons hab hall⟩

/-- A class name is what the pool has at the index that stands at the cursor. -/
theorem exists_index_of_readClassName {name : Option String}
    (h : readClassName pool c = .ok (name, c')) :
    ∃ index, (liftM Cursor.u2 : Part Nat) c = .ok (index, c') ∧
      className pool index = .ok name := by
  obtain ⟨index, c₁, hindex, h⟩ := bind_eq_ok_iff.1 h
  obtain ⟨hname, rfl⟩ := lift_eq_ok_iff.1 h
  exact ⟨index, hindex, hname⟩

/-- A method's name and descriptor are what the pool has at its indices. -/
theorem exists_indices_of_readMethod {m : Method} (h : readMethod pool c = .ok (m, c')) :
    ∃ indices, readMethodIndices pool c = .ok (indices, c') ∧
      pool.utf8 indices.1 = .ok m.name ∧ pool.utf8 indices.2 = .ok m.descriptor := by
  obtain ⟨accessFlags, c₁, haccess, h⟩ := bind_eq_ok_iff.1 h
  obtain ⟨nameIndex, c₂, hnameIndex, h⟩ := bind_eq_ok_iff.1 h
  obtain ⟨descriptorIndex, c₃, hdescriptorIndex, h⟩ := bind_eq_ok_iff.1 h
  obtain ⟨attributes, c₄, hattributes, h⟩ := bind_eq_ok_iff.1 h
  obtain ⟨name, c₅, hlookup, h⟩ := bind_eq_ok_iff.1 h
  obtain ⟨hname, rfl⟩ := lift_eq_ok_iff.1 hlookup
  obtain ⟨descriptor, c₆, hlookup', h⟩ := bind_eq_ok_iff.1 h
  obtain ⟨hdescriptor, rfl⟩ := lift_eq_ok_iff.1 hlookup'
  -- the code is read out of an attribute, so the cursor stays where it is
  have hlast : c₄ = c' ∧ name = m.name ∧ descriptor = m.descriptor := by
    cases hfind : attributes.find? codeName <;> simp only [hfind] at h
    · obtain ⟨rfl, rfl⟩ := pure_eq_ok_iff.1 h
      exact ⟨rfl, rfl, rfl⟩
    · obtain ⟨code, c₅, hcode, h⟩ := bind_eq_ok_iff.1 h
      obtain ⟨code', c₆, hcode', hsome⟩ := (bind_eq_ok_iff (f := (pure <| some ·))).1 hcode
      obtain ⟨-, rfl⟩ := lift_eq_ok_iff.1 hcode'
      obtain ⟨-, rfl⟩ := pure_eq_ok_iff.1 hsome
      obtain ⟨rfl, rfl⟩ := pure_eq_ok_iff.1 h
      exact ⟨rfl, rfl, rfl⟩
  obtain ⟨rfl, rfl, rfl⟩ := hlast
  refine ⟨(nameIndex, descriptorIndex), ?_, utf8_eq_ok_iff.1 hname, utf8_eq_ok_iff.1 hdescriptor⟩
  refine bind_eq_ok_iff.2 ⟨_, c₁, haccess, ?_⟩
  refine bind_eq_ok_iff.2 ⟨_, c₂, hnameIndex, ?_⟩
  refine bind_eq_ok_iff.2 ⟨_, c₃, hdescriptorIndex, ?_⟩
  exact bind_eq_ok_iff.2 ⟨_, c₄, hattributes, rfl⟩

/-- Behind its magic number and its version a class file holds its pool. Its name and those of its
methods are what the pool has at their indices. -/
theorem exists_indices_of_read {cls : ClassFile}
    (h : read c = .ok (cls, c')) :
    ∃ head c₁ c₂ indices c₃, c.Advances head c₁ ∧ head.length = 8 ∧
      readPool c₁ = .ok (cls.pool, c₂) ∧ readIndices c = .ok (indices, c₃) ∧
      className cls.pool indices.own = .ok cls.name ∧
      List.Forall₂ (fun m index => cls.pool.utf8 index.1 = .ok m.name ∧
        cls.pool.utf8 index.2 = .ok m.descriptor) cls.methods indices.methods := by
  obtain ⟨found, c₁, hfound, h⟩ := bind_eq_ok_iff.1 h
  split at h
  · obtain ⟨_, _, hthrow, -⟩ := bind_eq_ok_iff.1 h
    exact absurd hthrow throw_ne_ok
  obtain ⟨minor, c₂, hminor, h⟩ := bind_eq_ok_iff.1 h
  obtain ⟨major, c₃, hmajor, h⟩ := bind_eq_ok_iff.1 h
  obtain ⟨pool, c₄, hpool, h⟩ := bind_eq_ok_iff.1 h
  obtain ⟨accessFlags, c₅, haccess, h⟩ := bind_eq_ok_iff.1 h
  obtain ⟨name, c₆, hname, h⟩ := bind_eq_ok_iff.1 h
  obtain ⟨superName, c₇, hsuper, h⟩ := bind_eq_ok_iff.1 h
  obtain ⟨interfaceCount, c₈, hinterfaceCount, h⟩ := bind_eq_ok_iff.1 h
  obtain ⟨interfaces, c₉, hinterfaces, h⟩ := bind_eq_ok_iff.1 h
  obtain ⟨fieldCount, c₁₀, hfieldCount, h⟩ := bind_eq_ok_iff.1 h
  obtain ⟨fields, c₁₁, hfields, h⟩ := bind_eq_ok_iff.1 h
  obtain ⟨methodCount, c₁₂, hmethodCount, h⟩ := bind_eq_ok_iff.1 h
  obtain ⟨methods, c₁₃, hmethods, h⟩ := bind_eq_ok_iff.1 h
  obtain ⟨attributes, c₁₄, hattributes, h⟩ := bind_eq_ok_iff.1 h
  obtain ⟨sourceFile, c₁₅, hsource, h⟩ := bind_eq_ok_iff.1 h
  obtain ⟨rfl, rfl⟩ := pure_eq_ok_iff.1 h
  obtain ⟨own, hown, hname⟩ := exists_index_of_readClassName hname
  obtain ⟨super, hsuper, -⟩ := exists_index_of_readClassName hsuper
  obtain ⟨interfaceIndices, hinterfaces, -⟩ := exists_times
    (fun _ _ _ h => exists_index_of_readClassName h) hinterfaces
  obtain ⟨methodIndices, hmethods, hall⟩ := exists_times
    (fun _ _ _ h => exists_indices_of_readMethod h) hmethods
  obtain ⟨-, hadvances₁⟩ := step_unsigned_iff.1 hfound
  obtain ⟨-, hadvances₂⟩ := step_unsigned_iff.1 hminor
  obtain ⟨-, hadvances₃⟩ := step_unsigned_iff.1 hmajor
  have hlength : (Bytes.ofNat 4 found ++ Bytes.ofNat 2 minor ++ Bytes.ofNat 2 major).length = 8 := by
    simp only [List.length_append, Bytes.length_ofNat]
  have hhead := (hadvances₁.trans hadvances₂).trans hadvances₃
  refine ⟨_, c₃, c₄, ⟨own, methodIndices⟩, c₁₃, hhead, hlength, hpool, ?_, hname, hall⟩
  -- the reader of indices goes the same way, step by step
  refine bind_eq_ok_iff.2 ⟨_, c₁, hfound, ?_⟩
  refine bind_eq_ok_iff.2 ⟨_, c₂, hminor, ?_⟩
  refine bind_eq_ok_iff.2 ⟨_, c₃, hmajor, ?_⟩
  refine bind_eq_ok_iff.2 ⟨_, c₄, hpool, ?_⟩
  refine bind_eq_ok_iff.2 ⟨_, c₅, haccess, ?_⟩
  refine bind_eq_ok_iff.2 ⟨_, c₆, hown, ?_⟩
  refine bind_eq_ok_iff.2 ⟨_, c₇, hsuper, ?_⟩
  refine bind_eq_ok_iff.2 ⟨_, c₈, hinterfaceCount, ?_⟩
  refine bind_eq_ok_iff.2 ⟨_, c₉, hinterfaces, ?_⟩
  refine bind_eq_ok_iff.2 ⟨_, c₁₀, hfieldCount, ?_⟩
  refine bind_eq_ok_iff.2 ⟨_, c₁₁, hfields, ?_⟩
  refine bind_eq_ok_iff.2 ⟨_, c₁₂, hmethodCount, ?_⟩
  exact bind_eq_ok_iff.2 ⟨_, c₁₃, hmethods, rfl⟩

end Read

end Forwarder.ClassFile
