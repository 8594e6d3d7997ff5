import LoraRelay.Binary64.Rounding

/-!
# The shortest decimal number

A finite number is written with the fewest digits that read back as the same
number, and among those with the digits nearest to it; of two equally near the
even ones.

## The model

The multiples of `10 ^ k` form a grid, and each grid holds all coarser ones. On a
grid only the two neighbours of a number can be nearest to it, so the grids are
tried from the coarsest down, and the first neighbour that reads back is taken.
Reading back is asked of the reader itself (`Binary64.ofDecimal?`). Seventeen digits
are always enough; the exact value stands behind them.
-/

namespace LoraRelay.Binary64

/-- The value `u · 2 ^ -1074` in units of `10 ^ k`, as a ratio. -/
def onGrid (u : Nat) (k : Int) : Nat × Nat :=
  match k with
  | .ofNat k => (u, unitsPerOne * Nat.pow 10 k)
  | .negSucc k => (u * Nat.pow 10 (k + 1), unitsPerOne)

/-- The two neighbours of a ratio among the natural numbers, the nearer one first and
of two equally near ones the even one. -/
def neighbours (n d : Nat) : List Nat :=
  let near := roundHalfEven n d
  if near = n / d then [near, near + 1] else [near, near - 1]

/-- The neighbour of a number on a grid that reads back, the nearer one if both do. -/
def onGrid? (x : Binary64) (k : Int) : Option Decimal :=
  let (n, d) := onGrid (units x.magnitude) k
  ((neighbours n d).map (Decimal.mk x.negative · k)).find? (ofDecimal? · = some x)

/-- The first hit on `count` grids from that of `10 ^ k` down. -/
def search (x : Binary64) : Nat → Int → Option Decimal
  | 0, _ => none
  | count + 1, k => (onGrid? x k).or (search x count (k - 1))

/-- The exponent of the first digit of `u · 2 ^ -1074`. -/
def leadingExponent (u : Nat) : Int :=
  if unitsPerOne ≤ u then digitCount (u / unitsPerOne) - 1
  else -(digitCount ((unitsPerOne - 1) / u) : Int)

/-- The exact value of a finite number. -/
def exact (x : Binary64) : Decimal := ⟨x.negative, units x.magnitude * Nat.pow 5 1074, -1074⟩

/-- The shortest decimal number that reads back as a finite number. -/
def shortest (x : Binary64) : Decimal :=
  if x.magnitude = 0 then ⟨x.negative, 0, 0⟩
  else (search x 18 (leadingExponent (units x.magnitude) + 1)).getD x.exact

/-- A hit of the search reads back. -/
theorem ofDecimal?_of_search {x : Binary64} {count : Nat} {k : Int} {d : Decimal}
    (h : search x count k = some d) : ofDecimal? d = some x := by
  induction count generalizing k with
  | zero => cases h
  | succ count ih =>
    rw [search, Option.or_eq_some_iff] at h
    rcases h with h | ⟨_, h⟩
    · simpa using List.find?_some h
    · exact ih h

end LoraRelay.Binary64
