import LoraRelay.Binary64.Shortest
import LoraRelay.Bytes

/-!
# Numbers in a text

A number is written as an optional minus, digits without a needless zero in front,
optionally a point and digits, and optionally an exponent.

## The model

Reading keeps the digits of a number, without the zeros that end its fraction,
together with whether it was written as an integer. Only 768 digits are told apart
when the nearest floating-point number is looked for. This is enough to know on which
side of the middle between two floating-point numbers a number lies, as such a middle
has fewer digits, but not to know that a longer number is the middle: zeros that end a
whole part of more than 768 digits make it lie above.

A floating-point number is written with its shortest digits, positionally while its
first digit has an exponent from -5 to 15 and with an exponent otherwise;
positionally, there is always a point.
-/

namespace LoraRelay.Json

/-- A number as it is written. -/
structure Number where
  /-- There is a minus in front. -/
  negative : Bool
  /-- The digits before the point, and those after it without the zeros at their end. -/
  digits : Bytes
  /-- The power of ten that the last digit counts. -/
  exponent : Int
  /-- It has neither a point nor an exponent. -/
  integral : Bool
  deriving DecidableEq

namespace Number

/-- The number exactly. -/
def decimal (n : Number) : Decimal := ⟨n.negative, ofDigitBytes n.digits, n.exponent⟩

/-- How many digits are told apart when a floating-point number is read. -/
def maxDigits : Nat := 768

/-- The number with all digits after the first 768 replaced by a single one, whatever
they are. Zeros in front do not count. -/
def abridged (n : Number) : Decimal :=
  let digits := n.digits.dropWhile (· = 0x30)
  if digits.length ≤ maxDigits then n.decimal
  else
    let dropped := digits.length - maxDigits
    ⟨n.negative, 10 * ofDigitBytes (digits.take maxDigits) + 1, n.exponent + dropped - 1⟩

/-- The integer, of a number written as one. Zero has no minus. -/
def toInt? (n : Number) : Option Int :=
  let x := n.decimal
  if n.integral then
    if x.negative then if x.coefficient = 0 then none else some (-x.coefficient)
    else some x.coefficient
  else none

/-- The floating-point number nearest to the abridged number, unless it is too large. -/
def toBinary64? (n : Number) : Option Binary64 := Binary64.ofDecimal? n.abridged

/-- A number of at most 768 digits is read exactly. -/
theorem abridged_of_length_le {n : Number} (h : n.digits.length ≤ maxDigits) :
    n.abridged = n.decimal := by
  have := (List.dropWhile_suffix (l := n.digits) (· = 0x30)).length_le
  rw [abridged, if_pos (Nat.le_trans this h)]

/-! ### Reading -/

/-- The digits at the front, and the bytes after them. -/
def scanDigits (bytes : Bytes) : Bytes × Bytes := (bytes.takeWhile isDigit, bytes.dropWhile isDigit)

/-- The digits before the point: a zero alone, or digits that start with another. -/
def scanWhole : Bytes → Option (Bytes × Bytes)
  | [] => none
  | b :: rest =>
    if b = 0x30 then some ([b], rest)
    else if isDigit b then some (b :: (scanDigits rest).1, (scanDigits rest).2)
    else none

/-- Digits of which there is at least one. -/
def scanSome (bytes : Bytes) : Option (Bytes × Bytes) :=
  if (scanDigits bytes).1 = [] then none else some (scanDigits bytes)

/-- The digits after a point, none if there is no point. -/
def scanFraction : Bytes → Option (Bytes × Bytes)
  | [] => some ([], [])
  | b :: rest => if b = 0x2E then scanSome rest else some ([], b :: rest)

/-- Whether a sign at the front is a minus, and the bytes after the sign. -/
def scanSign : Bytes → Bool × Bytes
  | [] => (false, [])
  | b :: rest =>
    if b = 0x2D then (true, rest)
    else if b = 0x2B then (false, rest)
    else (false, b :: rest)

/-- The exponent, if there is one. -/
def scanExponent : Bytes → Option (Option Int × Bytes)
  | [] => some (none, [])
  | b :: rest =>
    if b = 0x65 ∨ b = 0x45 then do
      let (negative, rest) := scanSign rest
      let (digits, rest) ← scanSome rest
      let e := (ofDigitBytes digits : Int)
      return (some (if negative then -e else e), rest)
    else some (none, b :: rest)

/-- Digits without the zeros at their end. -/
def trimZeros (digits : Bytes) : Bytes := (digits.reverse.dropWhile (· = 0x30)).reverse

/-- The number at the front, its minus having been read, and the bytes after it. -/
def scanUnsigned (negative : Bool) (bytes : Bytes) : Option (Number × Bytes) := do
  let (whole, bytes) ← scanWhole bytes
  let (fraction, bytes) ← scanFraction bytes
  let (exponent, bytes) ← scanExponent bytes
  let places := trimZeros fraction
  return (⟨negative, whole ++ places, exponent.getD 0 - places.length,
    fraction.isEmpty && exponent.isNone⟩, bytes)

/-- The number at the front, and the bytes after it. -/
def scan : Bytes → Option (Number × Bytes)
  | [] => none
  | b :: rest => if b = 0x2D then scanUnsigned true rest else scanUnsigned false (b :: rest)

/-! ### What is read is no longer there -/

theorem length_scanDigits (bytes : Bytes) : (scanDigits bytes).2.length ≤ bytes.length :=
  (List.dropWhile_suffix isDigit).length_le

theorem length_of_scanWhole {bytes ds rest : Bytes} (h : scanWhole bytes = some (ds, rest)) :
    rest.length < bytes.length := by
  unfold scanWhole at h
  split at h
  · cases h
  · rename_i tail
    have := length_scanDigits tail
    split at h
    · cases h
      simp
    · split at h
      · cases h
        simp
        omega
      · cases h

theorem length_of_scanSome {bytes ds rest : Bytes} (h : scanSome bytes = some (ds, rest)) :
    rest.length ≤ bytes.length := by
  unfold scanSome at h
  split at h
  · cases h
  · cases h
    exact length_scanDigits bytes

theorem length_of_scanFraction {bytes ds rest : Bytes} (h : scanFraction bytes = some (ds, rest)) :
    rest.length ≤ bytes.length := by
  unfold scanFraction at h
  split at h
  · cases h
    simp
  · split at h
    · have := length_of_scanSome h
      simp
      omega
    · cases h
      simp

theorem length_scanSign (bytes : Bytes) : (scanSign bytes).2.length ≤ bytes.length := by
  unfold scanSign
  split
  · simp
  · split
    · simp
    · split <;> simp

theorem length_of_scanExponent {bytes rest : Bytes} {e : Option Int}
    (h : scanExponent bytes = some (e, rest)) : rest.length ≤ bytes.length := by
  unfold scanExponent at h
  split at h
  · cases h
    simp
  · rename_i tail
    split at h
    · simp only [Option.bind_eq_bind, Option.bind_eq_some_iff, Option.pure_def, Option.some.injEq,
        Prod.mk.injEq] at h
      obtain ⟨⟨ds, r⟩, hd, _, rfl⟩ := h
      have h₁ := length_of_scanSome hd
      have h₂ := length_scanSign tail
      simp
      omega
    · cases h
      simp

theorem length_of_scanUnsigned {negative : Bool} {bytes rest : Bytes} {n : Number}
    (h : scanUnsigned negative bytes = some (n, rest)) : rest.length < bytes.length := by
  simp only [scanUnsigned, Option.bind_eq_bind, Option.bind_eq_some_iff, Option.pure_def,
    Option.some.injEq, Prod.mk.injEq] at h
  obtain ⟨⟨_, _⟩, h₁, ⟨_, _⟩, h₂, ⟨_, _⟩, h₃, _, rfl⟩ := h
  have := length_of_scanWhole h₁
  have := length_of_scanFraction h₂
  have := length_of_scanExponent h₃
  simp_all
  omega

theorem length_of_scan {bytes rest : Bytes} {n : Number} (h : scan bytes = some (n, rest)) :
    rest.length < bytes.length := by
  unfold scan at h
  split at h
  · cases h
  · split at h
    · have := length_of_scanUnsigned h
      simp
      omega
    · exact length_of_scanUnsigned h

end Number

/-! ### Writing -/

/-- An integer. -/
def writeInt (i : Int) : Bytes := (if i < 0 then [0x2D] else []) ++ digitBytes i.natAbs

/-- A decimal number with a point, the exponent of its first digit being `e`. -/
def writePositional (digits : Bytes) (e : Int) : Bytes :=
  if e < 0 then [0x30, 0x2E] ++ List.replicate (e.natAbs - 1) 0x30 ++ digits
  else
    let whole := e.toNat + 1
    if digits.length ≤ whole then
      digits ++ List.replicate (whole - digits.length) 0x30 ++ [0x2E, 0x30]
    else digits.take whole ++ [0x2E] ++ digits.drop whole

/-- A decimal number with an exponent, that of its first digit. -/
def writeScientific (digits : Bytes) (e : Int) : Bytes :=
  digits.take 1 ++ (if digits.length ≤ 1 then [] else 0x2E :: digits.drop 1) ++
    [0x65, if e < 0 then 0x2D else 0x2B] ++ digitBytes e.natAbs

/-- A decimal number. -/
def writeDecimal (x : Decimal) : Bytes :=
  let digits := digitBytes x.coefficient
  let e := x.exponent + digits.length - 1
  (if x.negative then [0x2D] else []) ++
    (if -5 ≤ e ∧ e ≤ 15 then writePositional digits e else writeScientific digits e)

/-- A floating-point number, or `null` if it is not finite. -/
def writeBinary64 (x : Binary64) : Bytes :=
  if x.IsFinite then writeDecimal x.shortest else ascii "null"

end LoraRelay.Json
