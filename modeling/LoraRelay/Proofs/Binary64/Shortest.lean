import LoraRelay.Binary64.Shortest
import LoraRelay.Proofs.Binary64.Rounding
import LoraRelay.Proofs.Digits
import Mathlib.Data.Nat.Cast.Order.Field

/-!
# Numbers are read back

The decimal number that a finite floating-point number is written as is read as that
number (`Binary64.ofDecimal?_shortest`).

## The model

The first digit of a number stands for `10 ^ L`. On the grid of `10 ^ (L - 16)` the
nearest point differs from the number by at most half of `10 ^ (L - 16)`, which is one
part in `2 · 10 ^ 16` of it or less, and so it reads back. The search comes to this
grid if no coarser one has a hit before: it never falls back on the exact value.
-/

namespace LoraRelay.Binary64

/-! ### The first digit -/

/-- The leading exponent is that of the first digit. -/
theorem leadingExponent_spec {u : Nat} (hu : 0 < u) :
    (10 : ℚ) ^ leadingExponent u ≤ u / unitsPerOne ∧
      (u : ℚ) / unitsPerOne < 10 ^ (leadingExponent u + 1) := by
  have hU := unitsPerOne_pos
  have hq : (0 : ℚ) < unitsPerOne := Nat.cast_pos.2 hU
  unfold leadingExponent
  by_cases h : unitsPerOne ≤ u
  · have hp : 0 < u / unitsPerOne := Nat.div_pos h hU
    obtain ⟨k, hk⟩ := Nat.exists_eq_add_one_of_ne_zero (digitCount_pos (u / unitsPerOne)).ne'
    have h₁ : 10 ^ k * unitsPerOne ≤ u :=
      (Nat.le_div_iff_mul_le hU).1 (pow_le_of_digitCount_eq hp hk)
    have h₂ : u < 10 ^ (k + 1) * unitsPerOne := by
      rw [← Nat.div_lt_iff_lt_mul hU, ← hk]
      exact lt_pow_digitCount _
    have he : ((k + 1 : Nat) : Int) - 1 = k := by
      omega
    rw [if_pos h, hk, he, ← Nat.cast_succ k]
    constructor
    · rw [zpow_natCast, le_div_iff₀ hq]
      exact_mod_cast h₁
    · rw [zpow_natCast, div_lt_iff₀ hq]
      exact_mod_cast h₂
  · have hp : 0 < (unitsPerOne - 1) / u := Nat.div_pos (by omega) hu
    obtain ⟨k, hk⟩ := Nat.exists_eq_add_one_of_ne_zero (digitCount_pos ((unitsPerOne - 1) / u)).ne'
    have h₁ : 10 ^ k * u ≤ unitsPerOne - 1 :=
      (Nat.le_div_iff_mul_le hu).1 (pow_le_of_digitCount_eq hp hk)
    have h₂ : unitsPerOne - 1 < 10 ^ (k + 1) * u := by
      rw [← Nat.div_lt_iff_lt_mul hu, ← hk]
      exact lt_pow_digitCount _
    have h₁' : 10 ^ k * u < unitsPerOne := by
      omega
    have h₂' : unitsPerOne ≤ 10 ^ (k + 1) * u := by
      omega
    have he : -((k + 1 : Nat) : Int) + 1 = -k := by
      omega
    rw [if_neg h, hk, he]
    constructor
    · rw [zpow_neg, zpow_natCast, le_div_iff₀ hq, inv_mul_le_iff₀ (by positivity)]
      exact_mod_cast h₂'
    · rw [zpow_neg, zpow_natCast, div_lt_iff₀ hq, lt_inv_mul_iff₀ (by positivity)]
      exact_mod_cast h₁'

/-! ### Grids -/

theorem onGrid_pos (u : Nat) (k : Int) : 0 < (onGrid u k).2 := by
  cases k with
  | ofNat k =>
    simp only [onGrid]
    exact Nat.mul_pos unitsPerOne_pos (Nat.pow_pos (by decide))
  | negSucc k =>
    simp only [onGrid]
    exact unitsPerOne_pos

/-- A ratio on the grid of `10 ^ k` counts powers of ten. -/
theorem onGrid_eq (u : Nat) (k : Int) :
    ((onGrid u k).1 : ℚ) / (onGrid u k).2 * 10 ^ k = u / unitsPerOne := by
  have hU : (unitsPerOne : ℚ) ≠ 0 := Nat.cast_ne_zero.2 unitsPerOne_pos.ne'
  cases k with
  | ofNat k =>
    simp only [onGrid, Nat.pow_eq, Nat.cast_mul, Nat.cast_pow, Nat.cast_ofNat, Int.ofNat_eq_natCast,
      zpow_natCast]
    field_simp
  | negSucc k =>
    simp only [onGrid, Nat.pow_eq, Nat.cast_mul, Nat.cast_pow, Nat.cast_ofNat, zpow_negSucc]
    field_simp

theorem onGrid?_eq (x : Binary64) (k : Int) :
    x.onGrid? k =
      ((neighbours (onGrid (units x.magnitude) k).1 (onGrid (units x.magnitude) k).2).map
        (Decimal.mk x.negative · k)).find? (ofDecimal? · = some x) := rfl

theorem roundHalfEven_mem_neighbours (n d : Nat) : roundHalfEven n d ∈ neighbours n d := by
  unfold neighbours
  by_cases h : roundHalfEven n d = n / d
  · simp [h]
  · simp [h]

theorem le_of_mem_neighbours {n d c : Nat} (h : c ∈ neighbours n d) : c ≤ n / d + 1 := by
  have hr := roundHalfEven_le n d
  unfold neighbours at h
  by_cases he : roundHalfEven n d = n / d
  · simp only [if_pos he, List.mem_cons, List.not_mem_nil, or_false] at h
    omega
  · simp only [if_neg he, List.mem_cons, List.not_mem_nil, or_false] at h
    omega

/-- **Seventeen digits are enough**: the nearest point of the grid sixteen digits below the
first digit reads back. -/
theorem isSome_onGrid? {x : Binary64} (hx : x.IsFinite) (h0 : 0 < x.magnitude) :
    (x.onGrid? (leadingExponent (units x.magnitude) - 16)).isSome := by
  obtain ⟨hl, -⟩ := leadingExponent_spec (units_pos h0)
  generalize hk : leadingExponent (units x.magnitude) - 16 = k
  have hd := onGrid_pos (units x.magnitude) k
  have hv := onGrid_eq (units x.magnitude) k
  rw [onGrid?_eq, List.find?_isSome]
  generalize (onGrid (units x.magnitude) k).1 = n at *
  generalize (onGrid (units x.magnitude) k).2 = d at *
  refine ⟨_, List.mem_map_of_mem (roundHalfEven_mem_neighbours n d),
    decide_eq_true (ofDecimal?_eq_of_near hx rfl ?_)⟩
  have hp := ten_zpow_pos k
  have hL : (10 : ℚ) ^ leadingExponent (units x.magnitude) = 10 ^ k * 10 ^ 16 := by
    rw [← Int.sub_add_cancel (leadingExponent (units x.magnitude)) 16, hk,
      zpow_add₀ (by norm_num)]
    rfl
  calc 20000000000000000 * |(roundHalfEven n d : ℚ) * 10 ^ k - x.absValue|
      = 20000000000000000 * (|(roundHalfEven n d : ℚ) - n / d| * 10 ^ k) := by
        rw [absValue, ← hv, ← sub_mul, abs_mul, abs_of_pos hp]
    _ ≤ 20000000000000000 * (1 / 2 * 10 ^ k) := by
        have := abs_roundHalfEven_sub_le n hd
        gcongr
    _ = 10 ^ leadingExponent (units x.magnitude) := by
        rw [hL]
        ring
    _ ≤ x.absValue := hl

/-! ### The search -/

theorem isSome_search {x : Binary64} {count : Nat} {j k : Int} (h : (x.onGrid? j).isSome)
    (hj : j ≤ k) (hc : k < j + count) : (search x count k).isSome := by
  induction count generalizing k with
  | zero => omega
  | succ count ih =>
    rw [search, Option.isSome_or, Bool.or_eq_true]
    rcases Int.lt_or_eq_of_le hj with hj | rfl
    · exact .inr (ih (by omega) (by omega))
    · exact .inl h

theorem exists_onGrid?_of_search {x : Binary64} {count : Nat} {k : Int} {d : Decimal}
    (h : search x count k = some d) : ∃ j, j ≤ k ∧ k < j + count ∧ x.onGrid? j = some d := by
  induction count generalizing k with
  | zero => cases h
  | succ count ih =>
    rw [search, Option.or_eq_some_iff] at h
    rcases h with h | ⟨-, h⟩
    · exact ⟨k, by omega, by omega, h⟩
    · obtain ⟨j, hj, hc, hd⟩ := ih h
      exact ⟨j, by omega, by omega, hd⟩

/-- The coefficient of a hit is at most what the number comes to on its grid, and one
more. -/
theorem of_onGrid? {x : Binary64} {k : Int} {d : Decimal} (h : x.onGrid? k = some d) :
    d.negative = x.negative ∧ d.exponent = k ∧
      (d.coefficient : ℚ) ≤ x.absValue / 10 ^ k + 1 := by
  have hp := ten_zpow_pos k
  rw [onGrid?_eq] at h
  obtain ⟨c, hc, rfl⟩ := List.mem_map.1 (List.mem_of_find?_eq_some h)
  refine ⟨rfl, rfl, ?_⟩
  calc (c : ℚ)
      ≤ ((onGrid (units x.magnitude) k).1 / (onGrid (units x.magnitude) k).2 : Nat) + 1 := by
        exact_mod_cast le_of_mem_neighbours hc
    _ ≤ (onGrid (units x.magnitude) k).1 / (onGrid (units x.magnitude) k).2 + 1 := by
        gcongr
        exact Nat.cast_div_le
    _ = x.absValue / 10 ^ k + 1 := by
        rw [absValue, ← onGrid_eq, mul_div_cancel_right₀ _ hp.ne']

/-! ### The shortest number -/

/-- The shortest number is a hit on one of eighteen grids. -/
theorem exists_onGrid?_shortest {x : Binary64} (hx : x.IsFinite) (h0 : 0 < x.magnitude) :
    ∃ k, leadingExponent (units x.magnitude) ≤ k + 16 ∧ x.onGrid? k = some x.shortest ∧
      ofDecimal? x.shortest = some x := by
  have hs : (search x 18 (leadingExponent (units x.magnitude) + 1)).isSome :=
    isSome_search (isSome_onGrid? hx h0) (by omega) (by omega)
  obtain ⟨d, hd⟩ := Option.isSome_iff_exists.1 hs
  have he : x.shortest = d := by
    rw [shortest, if_neg (Nat.ne_of_gt h0), hd, Option.getD_some]
  obtain ⟨k, -, hk, hg⟩ := exists_onGrid?_of_search hd
  rw [he]
  exact ⟨k, by omega, hg, ofDecimal?_of_search hd⟩

theorem shortest_of_magnitude_eq_zero {x : Binary64} (h : x.magnitude = 0) :
    x.shortest = ⟨x.negative, 0, 0⟩ := if_pos h

/-- **Numbers are read back**: the shortest decimal number of a finite number is read as
that number. -/
theorem ofDecimal?_shortest {x : Binary64} (hx : x.IsFinite) : ofDecimal? x.shortest = some x := by
  obtain h0 | h0 := Nat.eq_zero_or_pos x.magnitude
  · conv_rhs => rw [← ofMagnitude_magnitude x]
    rw [shortest_of_magnitude_eq_zero h0, h0]
    rfl
  · obtain ⟨-, -, -, h⟩ := exists_onGrid?_shortest hx h0
    exact h

theorem negative_shortest {x : Binary64} (hx : x.IsFinite) : x.shortest.negative = x.negative := by
  obtain h0 | h0 := Nat.eq_zero_or_pos x.magnitude
  · rw [shortest_of_magnitude_eq_zero h0]
  · obtain ⟨k, -, h, -⟩ := exists_onGrid?_shortest hx h0
    exact (of_onGrid? h).1

/-- Only zero has the coefficient zero, and then there is no power of ten. -/
theorem exponent_shortest {x : Binary64} (hx : x.IsFinite) (h : x.shortest.coefficient = 0) :
    x.shortest.exponent = 0 := by
  have hr := ofDecimal?_shortest hx
  rw [ofDecimal?, if_pos h, negative_shortest hx, Option.some.injEq] at hr
  rw [shortest_of_magnitude_eq_zero]
  rw [← hr]
  exact magnitude_ofMagnitude (by decide)

theorem digitCount_shortest_le {x : Binary64} (hx : x.IsFinite) :
    digitCount x.shortest.coefficient ≤ 18 := by
  rw [digitCount_le_iff (by decide)]
  obtain h0 | h0 := Nat.eq_zero_or_pos x.magnitude
  · rw [shortest_of_magnitude_eq_zero h0]
    exact Nat.pow_pos (by decide)
  · obtain ⟨k, hk, h, -⟩ := exists_onGrid?_shortest hx h0
    have hp := ten_zpow_pos k
    have hv : x.absValue / 10 ^ k < 10 ^ 17 := by
      rw [div_lt_iff₀ hp]
      calc x.absValue < 10 ^ (leadingExponent (units x.magnitude) + 1) :=
            (leadingExponent_spec (units_pos h0)).2
        _ ≤ 10 ^ (17 + k) := zpow_le_zpow_right₀ (by norm_num) (by omega)
        _ = 10 ^ 17 * 10 ^ k := by
            rw [zpow_add₀ (by norm_num)]
            rfl
    have hc : (x.shortest.coefficient : ℚ) < 10 ^ 18 := by
      have := (of_onGrid? h).2.2
      linarith
    exact_mod_cast hc

end LoraRelay.Binary64
