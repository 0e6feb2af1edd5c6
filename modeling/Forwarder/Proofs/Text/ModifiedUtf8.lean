import Mathlib.Tactic.SplitIfs
import Forwarder.Proofs.Text.Utf8

/-!
# Modified UTF-8, read as UTF-8

The texts of class files are written in modified UTF-8: every UTF-16 unit by itself, zero in two
bytes, and a character beyond the basic plane as the two surrogates that stand for it. Where such
bytes are read as UTF-8 instead, `shown` is what becomes of a unit (`decode_encode`): a zero and a
surrogate give replacement characters, every other unit its own character. So different texts may
be read as one string (`decode_eq_iff`), but only as one that holds a replacement character
(`encode_eq_of_decode_eq`).
-/

namespace Forwarder.ModifiedUtf8

open Utf8 (replacement decodeFrom)

/-- The bytes of a UTF-16 unit. -/
def encodeUnit (unit : UInt16) : Bytes :=
  let n := unit.toNat
  if 0 < n ∧ n ≤ 0x7F then [UInt8.ofNat n]
  else if n ≤ 0x7FF then [UInt8.ofNat (n / 64 + 0xC0), UInt8.ofNat (n % 64 + 0x80)]
  else
    [UInt8.ofNat (n / 4096 + 0xE0), UInt8.ofNat (n / 64 % 64 + 0x80), UInt8.ofNat (n % 64 + 0x80)]

/-- The bytes of a text that is given by its UTF-16 units. -/
def encode (units : List UInt16) : Bytes := units.flatMap encodeUnit

/-- The characters that a reader of UTF-8 makes of the bytes of a unit. -/
def shown (unit : UInt16) : List Char :=
  let n := unit.toNat
  if n = 0 then [replacement, replacement]
  else if 0xD800 ≤ n ∧ n ≤ 0xDFFF then [replacement, replacement, replacement]
  else [Char.ofNat n]

section Unit

variable {unit : UInt16} {bs : Bytes}

/-- A unit that is a character by itself, other than zero, has the same bytes in UTF-8. -/
theorem encodeUnit_of_character (hzero : unit.toNat ≠ 0)
    (hsurrogate : ¬ (0xD800 ≤ unit.toNat ∧ unit.toNat ≤ 0xDFFF)) :
    encodeUnit unit = String.utf8EncodeChar (Char.ofNat unit.toNat) := by
  have hlt : unit.toNat < 0x10000 := unit.toNat_lt
  have hvalid : unit.toNat.isValidChar := by
    unfold Nat.isValidChar
    omega
  have hval : (Char.ofNat unit.toNat).val.toNat = unit.toNat := by
    rw [Char.ofNat, dif_pos hvalid]
    rfl
  rw [encodeUnit, String.utf8EncodeChar, hval]
  generalize unit.toNat = n at *
  by_cases hone : n ≤ 0x7F
  · rw [if_pos ⟨Nat.pos_of_ne_zero hzero, hone⟩, if_pos hone]
  · rw [if_neg (fun h => hone h.2), if_neg hone]
    by_cases htwo : n ≤ 0x7FF
    · rw [if_pos htwo, if_pos htwo, Nat.mod_eq_of_lt (by omega : n / 64 < 32)]
    · rw [if_neg htwo, if_neg htwo, if_pos (by omega), Nat.mod_eq_of_lt (by omega : n / 4096 < 16)]

/-- A byte that continues a sequence begins none. -/
theorem lead_tail : ∀ n < 64, Utf8.lead (UInt8.ofNat (n + 0x80)) = .invalid := by decide

/-- A byte that begins nothing is replaced. -/
theorem decodeFrom_invalid {b : UInt8} (h : Utf8.lead b = .invalid) :
    decodeFrom none (b :: bs) = replacement :: decodeFrom none bs := by
  rw [decodeFrom, Utf8.step, Utf8.start, h]
  rfl

/-- A byte that does not continue the open sequence leaves a replacement character for it. -/
theorem decodeFrom_interrupted {b : UInt8} {p : Utf8.Partial} (h : ¬ (p.low ≤ b ∧ b ≤ p.high)) :
    decodeFrom (some p) (b :: bs) = replacement :: decodeFrom none (b :: bs) := by
  rw [decodeFrom, Utf8.step, if_neg h, decodeFrom, Utf8.step]
  rfl

/-- The second byte of a surrogate lies beyond what may follow the first one in UTF-8. -/
theorem not_le_of_surrogate :
    ∀ n < 64, 32 ≤ n → ¬ ((0x80 : UInt8) ≤ UInt8.ofNat (n + 0x80) ∧
      UInt8.ofNat (n + 0x80) ≤ 0x9F) := by decide

/-- The bytes of a unit give what is shown of it. -/
theorem decodeFrom_encodeUnit (unit : UInt16) (bs : Bytes) :
    decodeFrom none (encodeUnit unit ++ bs) = shown unit ++ decodeFrom none bs := by
  rw [shown]
  split
  case isTrue hzero =>
    rw [encodeUnit, hzero]
    exact (decodeFrom_invalid (by decide)).trans
      (congrArg (replacement :: ·) (decodeFrom_invalid (lead_tail 0 (by decide))))
  case isFalse hzero =>
  split
  case isTrue hsurrogate =>
    have hlead : unit.toNat / 4096 = 13 := by omega
    have hsecond : ¬ ((0x80 : UInt8) ≤ UInt8.ofNat (unit.toNat / 64 % 64 + 0x80) ∧
        UInt8.ofNat (unit.toNat / 64 % 64 + 0x80) ≤ 0x9F) :=
      not_le_of_surrogate _ (Nat.mod_lt _ (by decide)) (by omega)
    rw [encodeUnit, if_neg (by omega), if_neg (by omega), hlead, List.cons_append,
      Utf8.decodeFrom_begins (p := ⟨2, 0x80, 0x9F, 13⟩) (by decide), List.cons_append,
      decodeFrom_interrupted hsecond, decodeFrom_invalid (lead_tail _ (Nat.mod_lt _ (by decide))),
      List.cons_append, decodeFrom_invalid (lead_tail _ (Nat.mod_lt _ (by decide)))]
    rfl
  case isFalse hsurrogate =>
    rw [encodeUnit_of_character hzero hsurrogate, Utf8.decodeFrom_char]
    rfl

end Unit

section Text

variable {units units' : List UInt16}

/-- The encoding of units is decoded as what is shown of them. -/
theorem decodeFrom_encode (units : List UInt16) :
    decodeFrom none (encode units) = units.flatMap shown := by
  induction units with
  | nil => rfl
  | cons unit units ih =>
    rw [encode, List.flatMap_cons, decodeFrom_encodeUnit, List.flatMap_cons]
    exact congrArg (shown unit ++ ·) ih

/-- **The string that a text is read as is what is shown of its units.** -/
theorem decode_encode (units : List UInt16) :
    Utf8.decode (encode units) = String.ofList (units.flatMap shown) := by
  rw [Utf8.decode, decodeFrom_encode]

/-- Two texts are read as the same string exactly if the same is shown of their units. -/
theorem decode_eq_iff : Utf8.decode (encode units) = Utf8.decode (encode units') ↔
    units.flatMap shown = units'.flatMap shown := by
  rw [decode_encode, decode_encode, String.ofList_inj]

/-- A unit of which no replacement character is shown has the bytes of what is shown. -/
theorem encodeUnit_of_not_mem {unit : UInt16} (h : replacement ∉ shown unit) :
    encodeUnit unit = (shown unit).flatMap String.utf8EncodeChar := by
  rw [shown] at h ⊢
  split at h
  case isTrue => exact absurd List.mem_cons_self h
  case isFalse hzero =>
  split at h
  case isTrue => exact absurd List.mem_cons_self h
  case isFalse hsurrogate =>
    rw [if_neg hzero, if_neg hsurrogate, List.flatMap_singleton]
    exact encodeUnit_of_character hzero hsurrogate

/-- Units of which no replacement is shown are encoded as their characters. -/
theorem encode_of_not_mem (h : replacement ∉ units.flatMap shown) :
    encode units = (units.flatMap shown).flatMap String.utf8EncodeChar := by
  induction units with
  | nil => rfl
  | cons unit units ih =>
    rw [List.flatMap_cons, List.mem_append, not_or] at h
    rw [encode, List.flatMap_cons, encodeUnit_of_not_mem h.1, List.flatMap_cons,
      List.flatMap_append]
    exact congrArg (_ ++ ·) (ih h.2)

/-- Texts that are read as one string without a replacement character have the same bytes. -/
theorem encode_eq_of_decode_eq (h : Utf8.decode (encode units) = Utf8.decode (encode units'))
    (hnot : replacement ∉ (Utf8.decode (encode units)).toList) : encode units = encode units' := by
  rw [decode_encode, String.toList_ofList] at hnot
  rw [decode_eq_iff] at h
  rw [encode_of_not_mem hnot, encode_of_not_mem (h ▸ hnot), h]

end Text

/-- The same is shown of two texts of modified UTF-8, which have the same bytes unless a replacement
character is among what is shown. -/
def Alike (x y : Bytes) : Prop :=
  ∀ us vs, x = encode us → y = encode vs →
    us.flatMap shown = vs.flatMap shown ∧ (replacement ∉ us.flatMap shown → x = y)

/-- Texts that are decoded alike are alike. -/
theorem alike_of_decode_eq {x y : Bytes} (h : Utf8.decode x = Utf8.decode y) :
    Alike x y := by
  rintro us vs rfl rfl
  refine ⟨decode_eq_iff.1 h, fun hnot => encode_eq_of_decode_eq h ?_⟩
  rwa [decode_encode, String.toList_ofList]

end Forwarder.ModifiedUtf8
