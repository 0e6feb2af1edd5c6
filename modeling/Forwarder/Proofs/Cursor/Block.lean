import Forwarder.Proofs.Cursor.Reads

/-!
# Blocks of numbers

A block of pairs of bytes is the numbers that are written into it, and no other numbers are
(`u2Array_eq_ok_iff`). So it does not matter whether the numbers are read at once or one by one
(`u2Array_eq_ok_iff_u2Each`).
-/

namespace Forwarder.Cursor

variable {c c' : Cursor} {n : Nat} {ns : List Nat}

/-- Two bytes are the number that they denote. -/
theorem pairs_ofNat_append (h : n < Bytes.capacity 2) (bs : Bytes) :
    pairs (Bytes.ofNat 2 n ++ bs) = n :: pairs bs := by
  have hn : n < 65536 := h
  simp only [Bytes.ofNat, Bytes.capacity, List.cons_append, List.nil_append, pairs,
    UInt8.toNat_ofNat', List.cons.injEq, and_true]
  omega

/-- Numbers of two bytes each are what the pairs of their bytes denote. -/
theorem pairs_flatMap_ofNat (h : ∀ n ∈ ns, n < Bytes.capacity 2) :
    pairs (ns.flatMap (Bytes.ofNat 2)) = ns := by
  induction ns with
  | nil => rfl
  | cons n ns ih =>
    rw [List.flatMap_cons, pairs_ofNat_append (h n List.mem_cons_self),
      ih fun m hm => h m (List.mem_cons_of_mem _ hm)]

/-- A block of pairs of bytes holds that many numbers, each of which fits into two bytes, and is
what is written for them. -/
theorem flatMap_ofNat_pairs {bs : Bytes} (h : bs.length = 2 * n) :
    (pairs bs).length = n ∧ (∀ a ∈ pairs bs, a < Bytes.capacity 2) ∧
      (pairs bs).flatMap (Bytes.ofNat 2) = bs := by
  induction n generalizing bs with
  | zero =>
    obtain rfl := List.length_eq_zero_iff.1 h
    simp [pairs]
  | succ n ih =>
    obtain _ | ⟨hi, _ | ⟨lo, rest⟩⟩ := bs
    · cases h
    · cases h
    have hrest : rest.length = 2 * n := by
      simp only [List.length_cons] at h
      omega
    obtain ⟨hlength, hfits, hwritten⟩ := ih hrest
    have hnumber : 256 * hi.toNat + lo.toNat = Bytes.toNat [hi, lo] := by simp [Bytes.toNat]
    refine ⟨by simp [pairs, hlength], ?_, ?_⟩
    · intro a ha
      rw [pairs, hnumber] at ha
      rcases List.mem_cons.1 ha with rfl | ha
      · exact Bytes.toNat_lt [hi, lo]
      · exact hfits a ha
    · rw [pairs, hnumber, List.flatMap_cons, hwritten]
      exact congrArg (· ++ rest) (Bytes.ofNat_toNat [hi, lo])

/-- Numbers that are written one behind the other are read back as one block. -/
theorem reads_u2Array (h : ∀ n ∈ ns, n < Bytes.capacity 2) :
    Reads (u2Array ns.length) (ns.flatMap (Bytes.ofNat 2)) ns := by
  have hlength : ((ns.flatMap (Bytes.ofNat 2)).length : Int) = 2 * ns.length := by
    simp [List.length_flatMap, List.map_const', Int.mul_comm]
  have htake := (reads_take (ns.flatMap (Bytes.ofNat 2))).map pairs
  rwa [pairs_flatMap_ofNat h, hlength, ← u2Array_eq] at htake

/-- A number is read from two bytes that are the ones written for it. -/
theorem u2_eq_ok_iff :
    u2 c = .ok (n, c') ↔ n < Bytes.capacity 2 ∧ c.Advances (Bytes.ofNat 2 n) c' :=
  unsigned_eq_ok_iff

/-- A block of numbers is read exactly from the bytes that are written for them. -/
theorem u2Array_eq_ok_iff :
    u2Array n c = .ok (ns, c') ↔
      ns.length = n ∧ (∀ a ∈ ns, a < Bytes.capacity 2) ∧
        c.Advances (ns.flatMap (Bytes.ofNat 2)) c' := by
  constructor
  · intro h
    rw [u2Array_eq] at h
    obtain ⟨bs, c₁, htake, h⟩ := bind_eq_ok_iff.1 h
    obtain ⟨rfl, rfl⟩ := pure_eq_ok_iff.1 h
    obtain ⟨hlength, hadvance⟩ := take_eq_ok.1 htake
    have hbytes : bs.length = 2 * n := by omega
    obtain ⟨hcount, hfits, hwritten⟩ := flatMap_ofNat_pairs hbytes
    exact ⟨hcount, hfits, by rwa [hwritten]⟩
  · rintro ⟨rfl, hfits, hadvance⟩
    exact reads_u2Array hfits hadvance

/-- Some numbers of two bytes, read one by one. -/
def u2Each : (count : Nat) → Reader Fault (List Nat)
  | 0 => return []
  | count + 1 => do
    let n ← u2
    return n :: (← u2Each count)

/-- Reading numbers one by one is reading them as a block, from a position inside the buffer. -/
theorem u2Array_eq_ok_iff_u2Each (hc : c.pos ≤ c.length) :
    u2Array n c = .ok (ns, c') ↔ u2Each n c = .ok (ns, c') := by
  induction n generalizing c ns with
  | zero =>
    rw [u2Array_eq_ok_iff, u2Each, pure_eq_ok_iff]
    constructor
    · rintro ⟨hlength, -, hadvance⟩
      obtain rfl := List.length_eq_zero_iff.1 hlength
      exact ⟨rfl, hadvance.eq_of_nil.symm⟩
    · rintro ⟨rfl, rfl⟩
      exact ⟨rfl, nofun, .refl hc⟩
  | succ n ih =>
    rw [u2Array_eq_ok_iff, u2Each, bind_eq_ok_iff]
    constructor
    · rintro ⟨hlength, hfits, hadvance⟩
      obtain ⟨m, ms, rfl⟩ := List.exists_cons_of_length_eq_add_one hlength
      rw [List.flatMap_cons] at hadvance
      obtain ⟨c₁, hfirst, hrest⟩ := hadvance.split
      obtain ⟨hm, hms⟩ := List.forall_mem_cons.1 hfits
      have htail := (ih (hfirst.length_eq ▸ hfirst.pos_le)).1
        (u2Array_eq_ok_iff.2 ⟨Nat.succ.inj hlength, hms, hrest⟩)
      refine ⟨m, c₁, u2_eq_ok_iff.2 ⟨hm, hfirst⟩, ?_⟩
      exact bind_eq_ok_iff.2 ⟨ms, c', htail, pure_eq_ok_iff.2 ⟨rfl, rfl⟩⟩
    · rintro ⟨m, c₁, hfirst, h⟩
      obtain ⟨ms, c₂, htail, h⟩ := bind_eq_ok_iff.1 h
      obtain ⟨rfl, rfl⟩ := pure_eq_ok_iff.1 h
      obtain ⟨hm, hfirst⟩ := u2_eq_ok_iff.1 hfirst
      obtain ⟨hlength, hms, hrest⟩ :=
        u2Array_eq_ok_iff.1 ((ih (hfirst.length_eq ▸ hfirst.pos_le)).2 htail)
      rw [List.flatMap_cons]
      exact ⟨congrArg Nat.succ hlength, List.forall_mem_cons.2 ⟨hm, hms⟩, hfirst.trans hrest⟩

end Forwarder.Cursor
