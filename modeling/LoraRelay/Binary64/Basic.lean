/-!
# Binary floating-point numbers

A number of the 64-bit format: a sign, eleven bits of exponent and 52 bits of
fraction.

## The model

A number is its word. Without the sign bit the word is a natural number, the
*magnitude*; magnitudes are ordered as the numbers are, and the least that is not
a number is that of infinity. A finite number is a natural multiple of
`2 ^ -1074` (`Binary64.units`), so that every question about its value is one about
natural numbers.
-/

namespace LoraRelay

/-- A number of the 64-bit format, as its word. Two numbers are equal if their words
are, so that the zeros differ. -/
structure Binary64 where
  /-- The word. -/
  bits : UInt64
  deriving DecidableEq

namespace Binary64

/-- The weight of the sign bit. -/
def signWeight : Nat := 0x8000000000000000

/-- The weight of the lowest bit of the exponent, just above the fraction. -/
def exponentWeight : Nat := 0x10000000000000

/-- The magnitude of infinity. Finite numbers are those below. -/
def infinite : Nat := 0x7FF0000000000000

/-- The sign bit. -/
def negative (x : Binary64) : Bool := signWeight ≤ x.bits.toNat

/-- The word without the sign bit. -/
def magnitude (x : Binary64) : Nat := x.bits.toNat % signWeight

/-- The number is neither infinite nor no number at all. -/
def IsFinite (x : Binary64) : Prop := x.magnitude < infinite

instance (x : Binary64) : Decidable x.IsFinite := inferInstanceAs (Decidable (_ < _))

/-- The eleven bits of exponent. -/
def exponentBits (x : Binary64) : Nat := x.bits.toNat / exponentWeight % 2048

/-- The 52 bits of fraction. -/
def fractionBits (x : Binary64) : Nat := x.bits.toNat % exponentWeight

/-- The word is that of an infinity: all bits of the exponent are set and none of the
fraction. -/
def IsInfinite (x : Binary64) : Prop := x.exponentBits = 2047 ∧ x.fractionBits = 0

/-- The word is that of no number at all: all bits of the exponent are set and some of
the fraction. -/
def IsNaN (x : Binary64) : Prop := x.exponentBits = 2047 ∧ x.fractionBits ≠ 0

/-- A number that is not finite is one of those whose exponent has all bits set. -/
theorem not_isFinite_iff {x : Binary64} : ¬ x.IsFinite ↔ x.IsNaN ∨ x.IsInfinite := by
  have hw := x.bits.toNat_lt
  simp only [IsFinite, IsNaN, IsInfinite, magnitude, exponentBits, fractionBits, signWeight,
    exponentWeight, infinite]
  omega

/-- The number with a given sign and magnitude. -/
def ofMagnitude (negative : Bool) (m : Nat) : Binary64 :=
  ⟨UInt64.ofNat (if negative then signWeight + m else m)⟩

/-- The significand of a magnitude: the fraction, and for a normal number the bit
above it that is not stored. -/
def significand (m : Nat) : Nat :=
  if m < exponentWeight then m else exponentWeight + m % exponentWeight

/-- The power of two of a magnitude, counted from the least one. -/
def scale (m : Nat) : Nat := m / exponentWeight - 1

/-- How many times `2 ^ -1074` the number with a given magnitude is. -/
def units (m : Nat) : Nat := significand m * Nat.pow 2 (scale m)

theorem ofMagnitude_magnitude (x : Binary64) : ofMagnitude x.negative x.magnitude = x := by
  obtain ⟨w⟩ := x
  have hw := w.toNat_lt
  simp only [ofMagnitude, negative, magnitude, signWeight, Binary64.mk.injEq]
  apply UInt64.toNat_inj.1
  by_cases h : 0x8000000000000000 ≤ w.toNat <;> simp [h] <;> omega

theorem magnitude_ofMagnitude {negative : Bool} {m : Nat} (h : m < signWeight) :
    (ofMagnitude negative m).magnitude = m := by
  simp only [signWeight] at h
  simp only [ofMagnitude, magnitude, signWeight]
  split <;> simp <;> omega

end Binary64

end LoraRelay
