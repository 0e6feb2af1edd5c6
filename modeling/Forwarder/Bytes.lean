/-!
# Byte strings and big-endian numbers

Class files store every number in big-endian order, unsigned or in two's complement. `Bytes.toNat`
and `Bytes.toInt` read a byte string as such a number, `Bytes.ofNat` writes a number into a given
width. `toNat_ofNat` says that writing loses nothing but the digits beyond the width, and
`ofNat_toNat` that a byte string is the only one of its width that denotes its number.
-/

namespace Forwarder

/-- A byte string. -/
abbrev Bytes := List UInt8

namespace Bytes

/-- The unsigned number that a byte string denotes, most significant byte first. -/
def toNat (bs : Bytes) : Nat :=
  bs.foldl (fun n b => 256 * n + b.toNat) 0

/-- The number of byte strings of a width, which is 256 to its power. -/
def capacity : (width : Nat) → Nat
  | 0 => 1
  | width + 1 => 256 * capacity width

/-- The number that a byte string denotes in two's complement. -/
def toInt (bs : Bytes) : Int :=
  if 2 * bs.toNat < capacity bs.length then bs.toNat else bs.toNat - capacity bs.length

/-- The last `width` base-256 digits of a number, most significant first. -/
def ofNat : (width : Nat) → Nat → Bytes
  | 0, _ => []
  | width + 1, n => UInt8.ofNat (n / capacity width) :: ofNat width n

/-- The `width` bytes that denote an integer in two's complement. -/
def ofInt (width : Nat) (i : Int) : Bytes :=
  ofNat width (i % (capacity width : Int)).toNat

@[simp] theorem toNat_nil : toNat [] = 0 := rfl

@[simp] theorem capacity_zero : capacity 0 = 1 := rfl

/-- One more byte of width multiplies the capacity by 256. -/
theorem capacity_succ (width : Nat) : capacity (width + 1) = 256 * capacity width := rfl

/-- Every width has a byte string. -/
theorem capacity_pos (width : Nat) : 0 < capacity width := by
  induction width with
  | zero => decide
  | succ width ih => rw [capacity_succ]; omega

/-- A fold over bytes that starts with a number puts that number in front of them. -/
theorem foldl_toNat (bs : Bytes) (n : Nat) :
    bs.foldl (fun n b => 256 * n + b.toNat) n = capacity bs.length * n + toNat bs := by
  induction bs generalizing n with
  | nil => simp
  | cons b bs ih =>
    simp only [List.foldl_cons, List.length_cons, toNat]
    rw [ih, ih (256 * 0 + b.toNat), capacity_succ, Nat.mul_add, Nat.mul_left_comm, Nat.mul_assoc]
    simp only [Nat.mul_zero, Nat.zero_add, Nat.add_assoc]

/-- The first byte counts as often as there are byte strings of the width behind it. -/
theorem toNat_cons (b : UInt8) (bs : Bytes) :
    toNat (b :: bs) = capacity bs.length * b.toNat + toNat bs := by
  simpa [toNat] using foldl_toNat bs (256 * 0 + b.toNat)

/-- What is written into a width has that width. -/
@[simp] theorem length_ofNat (width n : Nat) : (ofNat width n).length = width := by
  induction width with
  | zero => rfl
  | succ width ih => simp [ofNat, ih]

/-- A byte string of `k` bytes denotes a number below the capacity of `k`. -/
theorem toNat_lt (bs : Bytes) : toNat bs < capacity bs.length := by
  induction bs with
  | nil => decide
  | cons b bs ih =>
    rw [toNat_cons, List.length_cons, capacity_succ]
    have hb : b.toNat < 256 := b.toNat_lt
    have : capacity bs.length * b.toNat + capacity bs.length ≤ 256 * capacity bs.length := by
      rw [← Nat.mul_succ, Nat.mul_comm 256]
      exact Nat.mul_le_mul_left _ hb
    omega

/-- Reading back what was written gives the number without the digits beyond the width. -/
theorem toNat_ofNat (width n : Nat) : toNat (ofNat width n) = n % capacity width := by
  induction width with
  | zero => simp [ofNat, Nat.mod_one]
  | succ width ih =>
    have digit : (UInt8.ofNat (n / capacity width)).toNat = n / capacity width % 256 := by simp
    rw [ofNat, toNat_cons, ih, length_ofNat, digit, capacity_succ, Nat.mul_comm 256, Nat.mod_mul]
    omega

/-- A byte string is the only one of its width that denotes its number. -/
theorem ofNat_toNat (bs : Bytes) : ofNat bs.length (toNat bs) = bs := by
  suffices h : ∀ k, ofNat bs.length (capacity bs.length * k + toNat bs) = bs by simpa using h 0
  induction bs with
  | nil => intro k; rfl
  | cons b bs ih =>
    intro k
    have hlt := toNat_lt bs
    have split : capacity (bs.length + 1) * k + toNat (b :: bs)
        = capacity bs.length * (256 * k + b.toNat) + toNat bs := by
      rw [toNat_cons, capacity_succ, Nat.mul_add, Nat.mul_comm 256, Nat.mul_assoc, Nat.add_assoc]
    have digit : (capacity bs.length * (256 * k + b.toNat) + toNat bs) / capacity bs.length
        = 256 * k + b.toNat := by
      rw [Nat.mul_add_div (capacity_pos _), Nat.div_eq_of_lt hlt, Nat.add_zero]
    have byte : UInt8.ofNat (256 * k + b.toNat) = b := by
      rw [← UInt8.toNat_inj]
      have hb : b.toNat < 256 := b.toNat_lt
      simp only [UInt8.toNat_ofNat']
      omega
    rw [List.length_cons, split, ofNat, digit, byte, ih]

end Bytes

end Forwarder
