import LoraRelay.Binary64.Basic
import LoraRelay.Decimal

/-!
# Rounding to the nearest number

An exact ratio becomes the nearest floating-point number, and of two equally near
ones that with the even significand. Numbers too large are refused, numbers too
small become zero.

## The model

Let `q` be the ratio in units of `2 ^ -1074`, rounded down. A number with at least
`2 ^ 53` units has a significand of 53 bits, so `s`, what `q` has beyond that, is the
power of two that the significand is a multiple of. The magnitude of the result is
then `s` times `2 ^ 52` plus the rounded significand: a significand that is rounded
up to 54 bits moves on to the next power of two by itself, and so does a subnormal
number that becomes normal.
-/

namespace LoraRelay

/-- The natural number nearest to `n / d`, of two the even one. -/
def roundHalfEven (n d : Nat) : Nat :=
  let q := n / d
  let r := 2 * (n % d)
  if d < r ∨ (r = d ∧ q % 2 = 1) then q + 1 else q

namespace Binary64

/-- How many units make one. -/
def unitsPerOne : Nat := Nat.pow 2 1074

/-- The magnitude nearest to `n / d` units. -/
def magnitudeOfUnits (n d : Nat) : Nat :=
  let s := (n / d).log2 - 52
  s * exponentWeight + roundHalfEven n (d * Nat.pow 2 s)

/-- The number nearest to `n / d`, unless it is too large. -/
def ofRatio? (negative : Bool) (n d : Nat) : Option Binary64 :=
  let m := magnitudeOfUnits (n * unitsPerOne) d
  if m < infinite then some (ofMagnitude negative m) else none

/-- The number nearest to a decimal number, unless it is too large. Exponents far
out are answered without the power of ten: `10 ^ 342` is beyond `2 ^ 1024`, and less
than `2 ^ -1075` is nearest to zero. -/
def ofDecimal? (x : Decimal) : Option Binary64 :=
  if x.coefficient = 0 then some (ofMagnitude x.negative 0)
  else
    match x.exponent with
    | .ofNat e =>
      if 1024 ≤ 3 * e then none else ofRatio? x.negative (x.coefficient * Nat.pow 10 e) 1
    | .negSucc e =>
      if x.coefficient.log2 + 1101 < 3 * (e + 1) then some (ofMagnitude x.negative 0)
      else ofRatio? x.negative x.coefficient (Nat.pow 10 (e + 1))

theorem isFinite_ofMagnitude {negative : Bool} {m : Nat} (h : m < infinite) :
    (ofMagnitude negative m).IsFinite := by
  unfold IsFinite
  rw [magnitude_ofMagnitude]
  · exact h
  · exact Nat.lt_trans h (by decide)

theorem isFinite_of_ofRatio? {negative : Bool} {n d : Nat} {x : Binary64}
    (h : ofRatio? negative n d = some x) : x.IsFinite := by
  unfold ofRatio? at h
  simp only at h
  split at h
  · rename_i hm
    cases h
    exact isFinite_ofMagnitude hm
  · cases h

/-- What is read is finite. -/
theorem isFinite_of_ofDecimal? {d : Decimal} {x : Binary64} (h : ofDecimal? d = some x) :
    x.IsFinite := by
  have hz : ∀ s, (ofMagnitude s 0).IsFinite := fun s => isFinite_ofMagnitude (by decide)
  unfold ofDecimal? at h
  split at h
  · cases h
    exact hz _
  · split at h
    · split at h
      · cases h
      · exact isFinite_of_ofRatio? h
    · split at h
      · cases h
        exact hz _
      · exact isFinite_of_ofRatio? h

end Binary64

end LoraRelay
