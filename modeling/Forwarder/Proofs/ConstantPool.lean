import Forwarder.ConstantPool
import Forwarder.Proofs.Except

/-!
# What an index resolves to

When each lookup in a constant pool succeeds, in terms of the constant that the index denotes and of
the lookups of what that refers to.
-/

namespace Forwarder.ConstantPool

variable {pool : ConstantPool} {i : Int}

/-- A constant is found exactly in the slots that hold one; the first slot is never used. -/
theorem entry_eq_ok_iff {c : Constant} :
    pool.entry i = .ok c ↔ 0 < i ∧ pool.slots[i.toNat]? = some (some c) := by
  unfold entry
  constructor
  · intro h
    split at h
    · rename_i hbounds
      split at h
      · rename_i d hd
        cases h
        exact ⟨hbounds.1, hd⟩
      · cases h
    · cases h
  · rintro ⟨hpos, hslot⟩
    obtain ⟨hlt, -⟩ := Array.getElem?_eq_some_iff.1 hslot
    have hsize : i < pool.size := by
      rw [size]
      omega
    rw [if_pos ⟨hpos, hsize⟩, hslot]

/-- A text is what stands under the index of one. -/
theorem utf8_eq_ok_iff {text : String} :
    pool.utf8 i = .ok text ↔ pool.entry i = .ok (.utf8 text) := by
  constructor
  · intro h
    obtain ⟨c, hc, h⟩ := except_bind_eq_ok.1 h
    cases c with
    | utf8 s =>
      cases h
      exact hc
    | _ => cases h
  · intro h
    exact except_bind_eq_ok.2 ⟨_, h, rfl⟩

/-- The name of a class is the text that its constant leads to. -/
theorem className_eq_ok_iff {name : String} :
    pool.className i = .ok name ↔
      ∃ j, pool.entry i = .ok (.classRef j) ∧ pool.utf8 j = .ok name := by
  constructor
  · intro h
    obtain ⟨c, hc, h⟩ := except_bind_eq_ok.1 h
    cases c with
    | classRef j => exact ⟨j, hc, h⟩
    | _ => cases h
  · rintro ⟨j, hi, hj⟩
    exact except_bind_eq_ok.2 ⟨_, hi, hj⟩

/-- A name with a descriptor are the two texts that their constant leads to. -/
theorem nameAndType_eq_ok_iff {name descriptor : String} :
    pool.nameAndType i = .ok (name, descriptor) ↔ ∃ j k, pool.entry i = .ok (.nameAndType j k) ∧
      pool.utf8 j = .ok name ∧ pool.utf8 k = .ok descriptor := by
  constructor
  · intro h
    obtain ⟨c, hc, h⟩ := except_bind_eq_ok.1 h
    cases c with
    | nameAndType j k =>
      obtain ⟨s, hs, h⟩ := except_bind_eq_ok.1 h
      obtain ⟨t, ht, h⟩ := except_bind_eq_ok.1 h
      cases h
      exact ⟨j, k, hc, hs, ht⟩
    | _ => cases h
  · rintro ⟨j, k, hi, hj, hk⟩
    refine except_bind_eq_ok.2 ⟨_, hi, ?_⟩
    refine except_bind_eq_ok.2 ⟨_, hj, ?_⟩
    exact except_bind_eq_ok.2 ⟨_, hk, rfl⟩

/-- A member is the class and the name with the descriptor that its constant leads to. -/
theorem member_eq_ok_iff {kind : MemberKind} {owner name descriptor : String} :
    pool.member i = .ok ⟨kind, owner, name, descriptor⟩ ↔
      ∃ j k, pool.entry i = .ok (.member kind j k) ∧ pool.className j = .ok owner ∧
        pool.nameAndType k = .ok (name, descriptor) := by
  constructor
  · intro h
    obtain ⟨c, hc, h⟩ := except_bind_eq_ok.1 h
    cases c with
    | member kind' j k =>
      obtain ⟨texts, htexts, h⟩ := except_bind_eq_ok.1 h
      obtain ⟨owner', howner, h⟩ := except_bind_eq_ok.1 h
      cases h
      exact ⟨j, k, hc, howner, htexts⟩
    | _ => cases h
  · rintro ⟨j, k, hi, hj, hk⟩
    refine except_bind_eq_ok.2 ⟨_, hi, ?_⟩
    refine except_bind_eq_ok.2 ⟨_, hk, ?_⟩
    exact except_bind_eq_ok.2 ⟨_, hj, rfl⟩

/-- A method handle is the kind of its number and the member that its constant leads to. -/
theorem methodHandle_eq_ok_iff {kind : HandleKind} {member : MemberRef} :
    pool.methodHandle i = .ok ⟨kind, member⟩ ↔ ∃ number j,
      pool.entry i = .ok (.methodHandle number j) ∧ HandleKind.ofNumber? number = some kind ∧
        pool.member j = .ok member := by
  constructor
  · intro h
    obtain ⟨c, hc, h⟩ := except_bind_eq_ok.1 h
    cases c with
    | methodHandle number j =>
      cases hkind : HandleKind.ofNumber? number with
      | none =>
        simp only [hkind] at h
        cases h
      | some kind' =>
        simp only [hkind] at h
        obtain ⟨m, hm, h⟩ := except_bind_eq_ok.1 h
        cases h
        exact ⟨number, j, hc, hkind, hm⟩
    | _ => cases h
  · rintro ⟨number, j, hi, hkind, hj⟩
    refine except_bind_eq_ok.2 ⟨_, hi, ?_⟩
    simp only [hkind]
    exact except_bind_eq_ok.2 ⟨_, hj, rfl⟩

/-- A dynamic call is its bootstrap index and the name with the descriptor that its constant leads
to. -/
theorem dynamicCall_eq_ok_iff {bootstrap : Int} {name descriptor : String} :
    pool.dynamicCall i = .ok ⟨bootstrap, name, descriptor⟩ ↔
      ∃ j, pool.entry i = .ok (.invokeDynamic bootstrap j) ∧
        pool.nameAndType j = .ok (name, descriptor) := by
  constructor
  · intro h
    obtain ⟨c, hc, h⟩ := except_bind_eq_ok.1 h
    cases c with
    | invokeDynamic bootstrap' j =>
      obtain ⟨texts, htexts, h⟩ := except_bind_eq_ok.1 h
      cases h
      exact ⟨j, hc, htexts⟩
    | _ => cases h
  · rintro ⟨j, hi, hj⟩
    exact except_bind_eq_ok.2 ⟨_, hi, except_bind_eq_ok.2 ⟨_, hj, rfl⟩⟩

end Forwarder.ConstantPool
