import Forwarder.Cursor

/-!
# The bytes that a reader consumes

`Cursor.Advances c bs c'` says that `bs` are the bytes between two positions of one buffer. Every
reader of a cursor is described by it: `take_eq_ok`, `skip_eq_ok`, `unsigned_eq_ok` and
`signed_eq_ok` say exactly when the primitive readers succeed, in terms of the bytes that they
advance past. Advances compose (`Advances.trans`), split (`Advances.split`) and determine each other
(`Advances.prefix_of_le`, `Advances.unique`), so nothing else needs to look at the buffer.
-/

namespace Forwarder.Cursor

/-- The bytes `bs` lie between two positions of one buffer. -/
structure Advances (c : Cursor) (bs : Bytes) (c' : Cursor) : Prop where
  data_eq : c'.data = c.data
  pos_eq : c'.pos = c.pos + bs.length
  pos_le : c'.pos ≤ c.length
  rest_eq : c.rest = bs ++ c'.rest

section Advances

variable {c c₁ c₂ c' : Cursor} {a b bs : Bytes}

/-- What remains behind a cursor is as long as it has not come. -/
theorem length_rest (c : Cursor) : c.rest.length = c.length - c.pos := by
  simp [rest, length]

/-- A cursor that advances keeps the length of its bytes. -/
theorem Advances.length_eq (h : c.Advances bs c') : c'.length = c.length := by
  simp [length, h.data_eq]

/-- The bytes between a position and itself are none, at positions inside the buffer. -/
theorem Advances.refl (h : c.pos ≤ c.length) : c.Advances [] c :=
  ⟨rfl, by simp, h, by simp⟩

/-- A cursor that advances twice advances past both byte strings. -/
theorem Advances.trans (h₁ : c.Advances a c₁) (h₂ : c₁.Advances b c₂) :
    c.Advances (a ++ b) c₂ where
  data_eq := h₂.data_eq.trans h₁.data_eq
  pos_eq := by rw [h₂.pos_eq, h₁.pos_eq, List.length_append, Nat.add_assoc]
  pos_le := h₁.length_eq ▸ h₂.pos_le
  rest_eq := by rw [h₁.rest_eq, h₂.rest_eq, List.append_assoc]

/-- A cursor is its buffer and its position. -/
theorem eq_of_data_pos (hd : c.data = c'.data) (hp : c.pos = c'.pos) : c = c' := by
  cases c
  cases c'
  cases hd
  cases hp
  rfl

/-- A position is determined by the bytes before it. -/
theorem Advances.unique (h₁ : c.Advances bs c₁) (h₂ : c.Advances bs c₂) : c₁ = c₂ :=
  eq_of_data_pos (h₁.data_eq.trans h₂.data_eq.symm) (h₁.pos_eq.trans h₂.pos_eq.symm)

/-- There is a position behind every part of the bytes ahead. -/
theorem exists_advances (hp : c.pos ≤ c.length) (h : c.rest = a ++ b) :
    ∃ c', c.Advances a c' ∧ c'.rest = b := by
  have hl := congrArg List.length h
  rw [length_rest, List.length_append] at hl
  have hb : (Cursor.mk c.data (c.pos + a.length)).rest = b := by
    show c.data.toList.drop (c.pos + a.length) = b
    rw [← List.drop_drop]
    show c.rest.drop a.length = b
    rw [h, List.drop_left]
  refine ⟨⟨c.data, c.pos + a.length⟩, ⟨rfl, rfl, ?_, ?_⟩, hb⟩
  · show c.pos + a.length ≤ c.length
    omega
  · rw [hb, h]

/-- An advance past two byte strings stops between them. -/
theorem Advances.split (h : c.Advances (a ++ b) c') :
    ∃ c₁, c.Advances a c₁ ∧ c₁.Advances b c' := by
  have hp : c.pos ≤ c.length := by
    have := h.pos_eq
    have := h.pos_le
    omega
  obtain ⟨c₁, h₁, hr⟩ := exists_advances hp (h.rest_eq.trans (List.append_assoc ..))
  refine ⟨c₁, h₁, h.data_eq.trans h₁.data_eq.symm, ?_, ?_, hr⟩
  · rw [h.pos_eq, h₁.pos_eq, List.length_append, Nat.add_assoc]
  · rw [h₁.length_eq]
    exact h.pos_le

/-- Of two advances from one position the longer one begins with the bytes of the other. -/
theorem Advances.prefix_of_le (h₁ : c.Advances a c₁) (h₂ : c.Advances b c₂)
    (hl : a.length ≤ b.length) : ∃ t, b = a ++ t := by
  have hp : a <+: b :=
    List.prefix_of_prefix_length_le ⟨c₁.rest, h₁.rest_eq.symm⟩ ⟨c₂.rest, h₂.rest_eq.symm⟩ hl
  obtain ⟨t, ht⟩ := hp
  exact ⟨t, ht.symm⟩

/-- The cursor at the end of a byte string. -/
def atEnd (bs : Bytes) : Cursor := ⟨bs.toArray, bs.length⟩

/-- At the start everything remains. -/
@[simp] theorem rest_ofBytes (bs : Bytes) : (ofBytes bs).rest = bs := by
  simp [rest, ofBytes]

/-- A cursor advances from the start of its bytes to their end. -/
theorem advances_atEnd (bs : Bytes) : (ofBytes bs).Advances bs (atEnd bs) where
  data_eq := rfl
  pos_eq := by simp [ofBytes, atEnd]
  pos_le := by simp [ofBytes, atEnd, length]
  rest_eq := by simp [rest, ofBytes, atEnd]

/-- Nothing remains exactly at the end. -/
theorem rest_eq_nil_iff (h : c.pos ≤ c.length) : c.rest = [] ↔ c.pos = c.length := by
  rw [← List.length_eq_zero_iff, length_rest]
  omega

end Advances

section Primitives

variable {c c' : Cursor} {bs : Bytes} {size : Int} {width : Nat}

/-- Bytes are read exactly where that many lie ahead. -/
theorem take_eq_ok :
    take size c = .ok (bs, c') ↔ (bs.length : Int) = size ∧ c.Advances bs c' := by
  rw [take_eq_ok_iff]
  constructor
  · rintro ⟨h0, hl, rfl, rfl⟩
    have hlen : (c.rest.take size.toNat).length = size.toNat := by
      rw [List.length_take, length_rest]
      omega
    refine ⟨by omega, rfl, by rw [hlen], ?_, ?_⟩
    · show c.pos + size.toNat ≤ c.length
      omega
    · show c.rest = c.rest.take size.toNat ++ c.data.toList.drop (c.pos + size.toNat)
      rw [← List.drop_drop]
      exact (List.take_append_drop size.toNat c.rest).symm
  · rintro ⟨rfl, h⟩
    have hp := h.pos_eq
    have hle := h.pos_le
    refine ⟨by omega, by omega, ?_, eq_of_data_pos h.data_eq (by simpa using hp)⟩
    rw [Int.toNat_natCast, h.rest_eq, List.take_left]

/-- Bytes are skipped exactly where they can be read. -/
theorem skip_eq_ok {u : Unit} :
    skip size c = .ok (u, c') ↔ ∃ bs : Bytes, (bs.length : Int) = size ∧ c.Advances bs c' := by
  rw [skip_eq_take, bind_eq_ok_iff]
  constructor
  · rintro ⟨bs, c₁, htake, h⟩
    obtain ⟨-, rfl⟩ := pure_eq_ok_iff.1 h
    exact ⟨bs, take_eq_ok.1 htake⟩
  · rintro ⟨bs, h⟩
    exact ⟨bs, c', take_eq_ok.2 h, rfl⟩

/-- An unsigned number is what the bytes denote that the cursor advances past. -/
theorem unsigned_eq_ok {n : Nat} :
    unsigned width c = .ok (n, c') ↔
      ∃ bs : Bytes, bs.length = width ∧ c.Advances bs c' ∧ n = Bytes.toNat bs := by
  simp only [unsigned_eq, bind_eq_ok_iff, pure_eq_ok_iff, take_eq_ok]
  constructor
  · rintro ⟨bs, c₁, ⟨hl, h⟩, rfl, rfl⟩
    exact ⟨bs, by omega, h, rfl⟩
  · rintro ⟨bs, rfl, h, rfl⟩
    exact ⟨bs, c', ⟨rfl, h⟩, rfl, rfl⟩

/-- A number in two's complement is what the bytes denote that the cursor advances past. -/
theorem signed_eq_ok {n : Int} :
    signed width c = .ok (n, c') ↔
      ∃ bs : Bytes, bs.length = width ∧ c.Advances bs c' ∧ n = Bytes.toInt bs := by
  simp only [signed_eq, bind_eq_ok_iff, pure_eq_ok_iff, take_eq_ok]
  constructor
  · rintro ⟨bs, c₁, ⟨hl, h⟩, rfl, rfl⟩
    exact ⟨bs, by omega, h, rfl⟩
  · rintro ⟨bs, rfl, h, rfl⟩
    exact ⟨bs, c', ⟨rfl, h⟩, rfl, rfl⟩

end Primitives

end Forwarder.Cursor
