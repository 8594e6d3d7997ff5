/-!
# Decimal numbers

A decimal number is a sign, a coefficient and a power of ten. It is what is written
in a text, exactly; no digit is lost.
-/

namespace LoraRelay

/-- The number `coefficient · 10 ^ exponent` with a sign, which zero has too. -/
structure Decimal where
  /-- The number is below zero, or is a zero with a minus. -/
  negative : Bool
  /-- The digits. -/
  coefficient : Nat
  /-- The power of ten. -/
  exponent : Int
  deriving DecidableEq

/-! ### Digits -/

/-- How many digits a natural number has; zero has one. -/
def digitCount (n : Nat) : Nat := (Nat.toDigits 10 n).length

/-- The digits of a natural number in ASCII. -/
def digitBytes (n : Nat) : List UInt8 := (Nat.toDigits 10 n).map (·.val.toUInt8)

/-- Whether a byte is a digit in ASCII. -/
def isDigit (b : UInt8) : Bool := 0x30 ≤ b && b ≤ 0x39

/-- The natural number that digits in ASCII are read as. -/
def ofDigitBytes (digits : List UInt8) : Nat :=
  digits.foldl (fun n b => 10 * n + (b - 0x30).toNat) 0

end LoraRelay
