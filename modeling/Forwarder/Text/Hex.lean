/-!
# Hexadecimal numbers
-/

namespace Forwarder.Hex

/-- A number in lower-case hexadecimal digits, without leading zeros. -/
def ofNat (n : Nat) : String := String.ofList (Nat.toDigits 16 n)

/-- The two lower-case hexadecimal digits of a byte. -/
def ofByte (b : Nat) : String :=
  String.ofList [Nat.digitChar (b / 16 % 16), Nat.digitChar (b % 16)]

end Forwarder.Hex
