import Forwarder.Assembler.Encode
import Forwarder.Proofs.Cursor.Advance

/-!
# Reading back what was written

`Cursor.Reads r bs a` is what a reader owes to a writer: wherever the bytes `bs` lie ahead, `r`
consumes exactly them and gives `a`. It composes along the sequences that readers are made of
(`Reads.bind`, `reads_pure`), and the numbers begin it: a number is read exactly from the bytes that
are written for it (`unsigned_eq_ok_iff`, `signed_eq_ok_iff`).
-/

namespace Forwarder

namespace Bytes

variable {width : Nat} {i : Int}

/-- A number that fits into a two's complement field is the one that the field denotes. -/
theorem toInt_ofInt (hlow : -capacity width ≤ 2 * i) (hhigh : 2 * i < capacity width) :
    toInt (ofInt width i) = i := by
  have hpos : (0 : Int) < capacity width := by exact_mod_cast capacity_pos width
  have hnonneg := Int.emod_nonneg i (Int.ne_of_gt hpos)
  have hlt := Int.emod_lt_of_pos i hpos
  have hn : (ofInt width i).toNat = (i % (capacity width : Int)).toNat := by
    rw [ofInt, toNat_ofNat]
    exact Nat.mod_eq_of_lt (by omega)
  have hl : (ofInt width i).length = width := by rw [ofInt, length_ofNat]
  rw [toInt, hn, hl]
  by_cases hi : 0 ≤ i
  · have hmod : i % (capacity width : Int) = i := Int.emod_eq_of_lt hi (by omega)
    rw [hmod, if_pos (by omega)]
    omega
  · have hmod : i % (capacity width : Int) = i + capacity width := by
      rw [← Int.add_emod_right]
      exact Int.emod_eq_of_lt (by omega) (by omega)
    rw [hmod, if_neg (by omega)]
    omega

/-- A byte string denotes a number that fits into its width in two's complement. -/
theorem toInt_bounds (bs : Bytes) :
    -(capacity bs.length : Int) ≤ 2 * bs.toInt ∧ 2 * bs.toInt < capacity bs.length := by
  have hlt := toNat_lt bs
  unfold toInt
  split <;> omega

/-- A byte string is the only one of its width that denotes its number in two's complement. -/
theorem ofInt_toInt (bs : Bytes) : ofInt bs.length bs.toInt = bs := by
  have hlt := toNat_lt bs
  have hmod : bs.toInt % (capacity bs.length : Int) = bs.toNat := by
    unfold toInt
    split
    · exact Int.emod_eq_of_lt (by omega) (by omega)
    · rw [Int.sub_emod_right]
      exact Int.emod_eq_of_lt (by omega) (by omega)
  rw [ofInt, hmod, Int.toNat_natCast, ofNat_toNat]

end Bytes

namespace Cursor

/-- Wherever the bytes `bs` lie ahead, `r` consumes exactly them and gives `a`. -/
def Reads {ε α : Type} (r : Reader ε α) (bs : Bytes) (a : α) : Prop :=
  ∀ ⦃c c' : Cursor⦄, c.Advances bs c' → r c = .ok (a, c')

section Reads

variable {ε δ α β : Type} {r : Reader ε α} {f : α → Reader ε β} {bs bs' : Bytes} {a : α} {b : β}

/-- A cursor advances past no bytes only to itself. -/
theorem Advances.eq_of_nil {c c' : Cursor} (h : c.Advances [] c') : c' = c :=
  eq_of_data_pos h.data_eq h.pos_eq

/-- What is given is read from no bytes. -/
theorem reads_pure (a : α) : Reads (pure a : Reader ε α) [] a := by
  intro c c' h
  rw [h.eq_of_nil]
  rfl

/-- A sequence reads what its parts read, one behind the other. -/
theorem Reads.bind (h : Reads r bs a) (h' : Reads (f a) bs' b) :
    Reads (r >>= f) (bs ++ bs') b := by
  intro c c' hc
  obtain ⟨c₁, h₁, h₂⟩ := hc.split
  exact bind_eq_ok_iff.2 ⟨a, c₁, h h₁, h' h₂⟩

/-- What needs no bytes behind a read leaves it as it is. -/
theorem Reads.bind_nil (h : Reads r bs a) (h' : Reads (f a) [] b) : Reads (r >>= f) bs b := by
  rw [← List.append_nil bs]
  exact h.bind h'

/-- What is made of what is read needs no further bytes. -/
theorem Reads.map (g : α → β) (h : Reads r bs a) : Reads (do return g (← r)) bs (g a) :=
  h.bind_nil (reads_pure (g a))

theorem Reads.mapFault (g : ε → δ) (h : Reads r bs a) : Reads (r.mapFault g) bs a := by
  intro c c' hc
  exact mapFault_eq_ok_iff.2 (h hc)

/-- A result at hand needs no bytes in front of what is read with it. -/
theorem reads_lift_bind {e : Except ε α} (he : e = .ok a) (h : Reads (f a) bs b) :
    Reads ((liftM e : Reader ε α) >>= f) bs b := by
  subst he
  exact h

/-- What is looked up by a value that was read needs no bytes behind it. -/
theorem Reads.lookup {g : α → Except ε β} (h : Reads r bs a) (hg : g a = .ok b) :
    Reads (do liftM (g (← r))) bs b := by
  refine h.bind_nil ?_
  rw [hg]
  exact reads_pure b

theorem reads_take (bs : Bytes) : Reads (take bs.length) bs bs := by
  intro c c' h
  exact take_eq_ok.2 ⟨rfl, h⟩

theorem reads_skip (bs : Bytes) : Reads (skip bs.length) bs () := by
  intro c c' h
  exact skip_eq_ok.2 ⟨bs, rfl, h⟩

/-- What a reader reads at the front of a byte string is determined by the byte string. -/
theorem Reads.unique {more more' : Bytes} {a' : α} (h : Reads r bs a) (h' : Reads r bs' a')
    (heq : bs ++ more = bs' ++ more') : bs = bs' ∧ a = a' := by
  obtain ⟨c, hc, -⟩ := exists_advances (Nat.zero_le _) (rest_ofBytes (bs ++ more))
  obtain ⟨c', hc', -⟩ := exists_advances (Nat.zero_le _)
    ((rest_ofBytes (bs ++ more)).trans heq)
  cases (h hc).symm.trans (h' hc')
  have hlength : bs.length = bs'.length :=
    Nat.add_left_cancel (hc.pos_eq.symm.trans hc'.pos_eq)
  exact ⟨(List.append_inj heq hlength).1, rfl⟩

/-- Where its bytes lie ahead, a reader has read them. -/
theorem Reads.eq_of_rest {c c' : Cursor} {more : Bytes} {a' : α} (h : Reads r bs a)
    (hp : c.pos ≤ c.length) (hrest : c.rest = bs ++ more) (hr : r c = .ok (a', c')) :
    a' = a ∧ c.Advances bs c' := by
  obtain ⟨c₁, hadvances, -⟩ := exists_advances hp hrest
  cases (h hadvances).symm.trans hr
  exact ⟨rfl, hadvances⟩

/-- A reader that is given its bytes and more of them reads its own. -/
theorem Reads.run_append (h : Reads r bs a) (more : Bytes) :
    (r (.ofBytes (bs ++ more))).map Prod.fst = .ok a := by
  obtain ⟨c, hc, -⟩ := exists_advances (Nat.zero_le _) (rest_ofBytes (bs ++ more))
  rw [h hc]
  rfl

/-- A reader that is given exactly its bytes reads them. -/
theorem Reads.run (h : Reads r bs a) : (r (.ofBytes bs)).map Prod.fst = .ok a := by
  rw [h (advances_atEnd bs)]
  rfl

end Reads

section Numbers

variable {width : Nat} {i : Int} {bs : Bytes}

/-- A number below the capacity of a field is read back from it. -/
theorem reads_ofNat {n : Nat} (h : n < Bytes.capacity width) :
    Reads (unsigned width) (Bytes.ofNat width n) n := by
  intro c c' hc
  refine unsigned_eq_ok.2 ⟨_, Bytes.length_ofNat .., hc, ?_⟩
  rw [Bytes.toNat_ofNat, Nat.mod_eq_of_lt h]

/-- A number that fits into a two's complement field is read back from it. -/
theorem reads_ofInt (hlow : -Bytes.capacity width ≤ 2 * i) (hhigh : 2 * i < Bytes.capacity width) :
    Reads (signed width) (Bytes.ofInt width i) i := by
  intro c c' hc
  exact signed_eq_ok.2 ⟨_, Bytes.length_ofNat .., hc, (Bytes.toInt_ofInt hlow hhigh).symm⟩

/-- An unsigned number is read exactly from the bytes that are written for it. -/
theorem unsigned_eq_ok_iff {n : Nat} {c c' : Cursor} :
    unsigned width c = .ok (n, c') ↔
      n < Bytes.capacity width ∧ c.Advances (Bytes.ofNat width n) c' := by
  constructor
  · intro h
    obtain ⟨bs, rfl, hadvances, rfl⟩ := unsigned_eq_ok.1 h
    exact ⟨Bytes.toNat_lt bs, by rwa [Bytes.ofNat_toNat]⟩
  · rintro ⟨hlt, hadvances⟩
    exact reads_ofNat hlt hadvances

/-- A number in two's complement is read exactly from the bytes that are written for it. -/
theorem signed_eq_ok_iff {c c' : Cursor} :
    signed width c = .ok (i, c') ↔
      (-Bytes.capacity width ≤ 2 * i ∧ 2 * i < Bytes.capacity width) ∧
        c.Advances (Bytes.ofInt width i) c' := by
  constructor
  · intro h
    obtain ⟨bs, rfl, hadvances, rfl⟩ := signed_eq_ok.1 h
    exact ⟨Bytes.toInt_bounds bs, by rwa [Bytes.ofInt_toInt]⟩
  · rintro ⟨⟨hlow, hhigh⟩, hadvances⟩
    exact reads_ofInt hlow hhigh hadvances

/-- A number below the capacity of a field is written into it. -/
theorem unsigned_natCast {n : Nat} (h : n < Bytes.capacity width) :
    Encode.unsigned width n = .ok (Bytes.ofNat width n) := by
  unfold Encode.unsigned
  rw [if_pos ⟨by omega, by omega⟩, Int.toNat_natCast]

/-- What is written into an unsigned field is a natural number below its capacity. -/
theorem exists_of_unsigned (h : Encode.unsigned width i = .ok bs) :
    ∃ n : Nat, (n : Int) = i ∧ n < Bytes.capacity width ∧ bs = Bytes.ofNat width n := by
  unfold Encode.unsigned at h
  split at h
  · rename_i hi
    cases h
    exact ⟨i.toNat, by omega, by omega, rfl⟩
  · cases h

/-- A natural number that is written into an unsigned field fits into it. -/
theorem of_unsigned_natCast {n : Nat} (h : Encode.unsigned width n = .ok bs) :
    n < Bytes.capacity width ∧ bs = Bytes.ofNat width n := by
  obtain ⟨m, hm, hlt, rfl⟩ := exists_of_unsigned h
  obtain rfl := Int.ofNat.inj hm
  exact ⟨hlt, rfl⟩

/-- What is written into an unsigned field has its width. -/
theorem length_of_unsigned (h : Encode.unsigned width i = .ok bs) : bs.length = width := by
  obtain ⟨n, -, -, rfl⟩ := exists_of_unsigned h
  exact Bytes.length_ofNat ..

/-- A number that fits into an unsigned field is read back from it. -/
theorem reads_of_unsigned (h : Encode.unsigned width i = .ok bs) :
    ∃ n : Nat, (n : Int) = i ∧ Reads (unsigned width) bs n := by
  obtain ⟨n, hn, hlt, rfl⟩ := exists_of_unsigned h
  exact ⟨n, hn, reads_ofNat hlt⟩

/-- A natural number that fits into an unsigned field is read back from it. -/
theorem reads_of_unsigned_natCast {n : Nat} (h : Encode.unsigned width n = .ok bs) :
    Reads (unsigned width) bs n := by
  obtain ⟨hlt, rfl⟩ := of_unsigned_natCast h
  exact reads_ofNat hlt

/-- What is written into a two's complement field is a number that fits into it. -/
theorem exists_of_signed (h : Encode.signed width i = .ok bs) :
    -Bytes.capacity width ≤ 2 * i ∧ 2 * i < Bytes.capacity width ∧ bs = Bytes.ofInt width i := by
  unfold Encode.signed at h
  split at h
  · rename_i hi
    cases h
    exact ⟨hi.1, hi.2, rfl⟩
  · cases h

end Numbers

end Cursor

end Forwarder
