import Forwarder.Text.Utf8

/-!
# UTF-8 reads back what it writes

`Utf8.decode_encode`: decoding the bytes of a string gives the string. A character is written as a
lead byte and tail bytes; `lead_two`, `lead_three` and `lead_four` say which sequence a lead byte
begins, `step_tail` what a tail byte adds to it, and `decodeFrom_char` puts them together.
-/

namespace Forwarder.Utf8

section Lead

/-- A seven-bit number is a character of its own. -/
theorem lead_one : ∀ n < 128, lead (UInt8.ofNat n) = .character (Char.ofNat n) := by decide

/-- The lead byte of two carries five bits, of which the upper four are not all zero. -/
theorem lead_two : ∀ n < 32, 2 ≤ n →
    lead (UInt8.ofNat (n % 32 + 0xC0)) = .begins ⟨1, 0x80, 0xBF, n⟩ := by decide

/-- The lead byte of three carries four bits and bounds the byte behind it: no shorter form after
0, no surrogate after 13. -/
theorem lead_three : ∀ n < 16, lead (UInt8.ofNat (n % 16 + 0xE0)) =
    .begins ⟨2, if n = 0 then 0xA0 else 0x80, if n = 13 then 0x9F else 0xBF, n⟩ := by decide

/-- The lead byte of four carries three bits and bounds the byte behind it: no shorter form after
0, nothing beyond the last code point after 4. -/
theorem lead_four : ∀ n < 5, lead (UInt8.ofNat (n % 8 + 0xF0)) =
    .begins ⟨3, if n = 0 then 0x90 else 0x80, if n = 4 then 0x8F else 0xBF, n⟩ := by decide

end Lead

section Sequence

variable {b : UInt8} {bs : Bytes} {p : Partial}

/-- A byte that is a character is decoded as that. -/
theorem decodeFrom_character {c : Char} (h : lead b = .character c) :
    decodeFrom none (b :: bs) = c :: decodeFrom none bs := by
  rw [decodeFrom, step, start, h]
  rfl

/-- A byte that begins a character waits for those behind it. -/
theorem decodeFrom_begins (h : lead b = .begins p) :
    decodeFrom none (b :: bs) = decodeFrom (some p) bs := by
  rw [decodeFrom, step, start, h]
  rfl

theorem tail_low (n : Nat) : (0x80 : UInt8).toNat ≤ n % 64 + 0x80 := by simp

theorem tail_high (n : Nat) : n % 64 + 0x80 ≤ (0xBF : UInt8).toNat := by
  simp
  omega

/-- A tail byte within the bounds is taken and adds its six bits. -/
theorem step_tail {owed bits n : Nat} {low high : UInt8} (hlow : low.toNat ≤ n % 64 + 0x80)
    (hhigh : n % 64 + 0x80 ≤ high.toNat) :
    step (some ⟨owed, low, high, bits⟩) (UInt8.ofNat (n % 64 + 0x80)) =
      if owed = 1 then ([Char.ofNat (64 * bits + n % 64)], none)
      else ([], some ⟨owed - 1, 0x80, 0xBF, 64 * bits + n % 64⟩) := by
  have hn : (UInt8.ofNat (n % 64 + 0x80)).toNat = n % 64 + 0x80 := by
    rw [UInt8.toNat_ofNat']
    omega
  have hb : low ≤ UInt8.ofNat (n % 64 + 0x80) ∧ UInt8.ofNat (n % 64 + 0x80) ≤ high := by
    rw [UInt8.le_iff_toNat_le, UInt8.le_iff_toNat_le, hn]
    exact ⟨hlow, hhigh⟩
  have hbits : (n % 64 + 0x80) % 64 = n % 64 := by omega
  rw [step, if_pos hb, hn, hbits]

/-- The last tail byte that is owed completes the character. -/
theorem decodeFrom_last {bits n : Nat} {low high : UInt8} (hlow : low.toNat ≤ n % 64 + 0x80)
    (hhigh : n % 64 + 0x80 ≤ high.toNat) :
    decodeFrom (some ⟨1, low, high, bits⟩) (UInt8.ofNat (n % 64 + 0x80) :: bs) =
      Char.ofNat (64 * bits + n % 64) :: decodeFrom none bs := by
  rw [decodeFrom, step_tail hlow hhigh]
  rfl

/-- Another tail byte leaves a sequence that owes one less. -/
theorem decodeFrom_tail {owed bits n : Nat} {low high : UInt8} (hlow : low.toNat ≤ n % 64 + 0x80)
    (hhigh : n % 64 + 0x80 ≤ high.toNat) :
    decodeFrom (some ⟨owed + 2, low, high, bits⟩) (UInt8.ofNat (n % 64 + 0x80) :: bs) =
      decodeFrom (some ⟨owed + 1, 0x80, 0xBF, 64 * bits + n % 64⟩) bs := by
  rw [decodeFrom, step_tail hlow hhigh, if_neg (by omega)]
  rfl

/-- Between characters the bytes of a character give that character. -/
theorem decodeFrom_char (c : Char) (bs : Bytes) :
    decodeFrom none (String.utf8EncodeChar c ++ bs) = c :: decodeFrom none bs := by
  have hc : Char.ofNat c.val.toNat = c := Char.ofNat_toNat c
  have hvalid : c.val.toNat < 0xD800 ∨ 0xDFFF < c.val.toNat ∧ c.val.toNat < 0x110000 := c.valid
  rw [String.utf8EncodeChar]
  generalize c.val.toNat = v at hc hvalid
  split
  case isTrue h =>
    rw [List.cons_append, List.nil_append, decodeFrom_character (lead_one v (by omega)), hc]
  case isFalse h =>
  split
  case isTrue h =>
    have hv : 64 * (v / 64) + v % 64 = v := by omega
    rw [List.cons_append, decodeFrom_begins (lead_two (v / 64) (by omega) (by omega)),
      List.cons_append, decodeFrom_last (tail_low v) (tail_high v), hv, hc, List.nil_append]
  case isFalse h =>
  split
  case isTrue h =>
    have hv : 64 * (64 * (v / 4096) + v / 64 % 64) + v % 64 = v := by omega
    rw [List.cons_append, decodeFrom_begins (lead_three (v / 4096) (by omega)), List.cons_append,
      decodeFrom_tail, List.cons_append, decodeFrom_last (tail_low v) (tail_high v), hv, hc,
      List.nil_append]
    · split <;> simp; omega
    · split <;> simp <;> omega
  case isFalse h =>
    have hv : 64 * (64 * (64 * (v / 262144) + v / 4096 % 64) + v / 64 % 64) + v % 64 = v := by
      omega
    rw [List.cons_append, decodeFrom_begins (lead_four (v / 262144) (by omega)), List.cons_append,
      decodeFrom_tail, List.cons_append, decodeFrom_tail (tail_low (v / 64)) (tail_high (v / 64)),
      List.cons_append, decodeFrom_last (tail_low v) (tail_high v), hv, hc, List.nil_append]
    · split <;> simp; omega
    · split <;> simp <;> omega

end Sequence

/-- **The bytes of a string decode to the string.** -/
theorem decode_encode (s : String) : decode (encode s) = s := by
  have h : ∀ cs : List Char, decodeFrom none (cs.flatMap String.utf8EncodeChar) = cs := by
    intro cs
    induction cs with
    | nil => rfl
    | cons c cs ih => rw [List.flatMap_cons, decodeFrom_char, ih]
  rw [decode, encode, h, String.ofList_toList]

end Forwarder.Utf8
