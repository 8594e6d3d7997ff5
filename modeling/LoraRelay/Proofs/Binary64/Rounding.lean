import LoraRelay.Binary64.Rounding
import Mathlib.Algebra.Order.Field.Rat
import Mathlib.Tactic.FieldSimp
import Mathlib.Tactic.Linarith
import Mathlib.Tactic.Positivity
import Mathlib.Tactic.Ring

/-!
# What is rounded to a number

A ratio that differs from a finite number by at most one part in `2 · 10 ^ 16` is
rounded to that number. This is what makes decimal numbers of seventeen digits
enough.

## The model

A magnitude is its scale times `2 ^ 52` plus its significand. Rounding takes the scale
from the ratio, and there is one place where the ratio has a smaller scale than the
number it is rounded to: just below a power of two. There the significand is rounded
up to 54 bits.

Only the value of a decimal number matters for what it is rounded to
(`Decimal.absValue`): the answers given without the power of ten are those that it
would have led to.
-/

namespace LoraRelay

/-! ### Rounding to a natural number -/

/-- A ratio is rounded down if what is left of it is at most half, and up if it is at least
half. -/
theorem roundHalfEven_cases (n d : Nat) :
    roundHalfEven n d = n / d ∧ 2 * (n % d) ≤ d ∨
      roundHalfEven n d = n / d + 1 ∧ d ≤ 2 * (n % d) := by
  unfold roundHalfEven
  by_cases h : d < 2 * (n % d) ∨ (2 * (n % d) = d ∧ n / d % 2 = 1)
  · exact .inr ⟨if_pos h, by omega⟩
  · exact .inl ⟨if_neg h, by omega⟩

theorem div_le_roundHalfEven (n d : Nat) : n / d ≤ roundHalfEven n d := by
  rcases roundHalfEven_cases n d with ⟨h, -⟩ | ⟨h, -⟩ <;> omega

theorem roundHalfEven_le (n d : Nat) : roundHalfEven n d ≤ n / d + 1 := by
  rcases roundHalfEven_cases n d with ⟨h, -⟩ | ⟨h, -⟩ <;> omega

theorem roundHalfEven_near (n : Nat) {d : Nat} (hd : 0 < d) :
    2 * (roundHalfEven n d * d) ≤ 2 * n + d ∧ 2 * n ≤ 2 * (roundHalfEven n d * d) + d := by
  have hn := Nat.div_add_mod' n d
  have hm := Nat.mod_lt n hd
  rcases roundHalfEven_cases n d with ⟨h, hr⟩ | ⟨h, hr⟩
  · rw [h]
    omega
  · rw [h, Nat.add_mul]
    omega

theorem abs_roundHalfEven_sub_le (n : Nat) {d : Nat} (hd : 0 < d) :
    |(roundHalfEven n d : ℚ) - n / d| ≤ 1 / 2 := by
  have hq : (0 : ℚ) < d := Nat.cast_pos.2 hd
  obtain ⟨h₁, h₂⟩ := roundHalfEven_near n hd
  have h₁ : 2 * ((roundHalfEven n d : ℚ) * d) ≤ 2 * n + d := by
    exact_mod_cast h₁
  have h₂ : 2 * (n : ℚ) ≤ 2 * (roundHalfEven n d * d) + d := by
    exact_mod_cast h₂
  have he : (roundHalfEven n d : ℚ) - n / d = (roundHalfEven n d * d - n) / d := by
    field_simp
  rw [he, abs_div, abs_of_pos hq, div_le_iff₀ hq, abs_le]
  constructor
  · linarith
  · linarith

/-- What is less than half away from a natural number is rounded to it, as no other one is
that near. -/
theorem roundHalfEven_eq_of_lt {n d r : Nat} (h₁ : 2 * (r * d) < 2 * n + d)
    (h₂ : 2 * n < 2 * (r * d) + d) : roundHalfEven n d = r := by
  have hd : 0 < d := by
    rcases Nat.eq_zero_or_pos d with rfl | hd
    · omega
    · exact hd
  obtain ⟨h₃, h₄⟩ := roundHalfEven_near n hd
  rcases Nat.lt_trichotomy (roundHalfEven n d) r with h | h | h
  · have : (roundHalfEven n d + 1) * d ≤ r * d := Nat.mul_le_mul_right d h
    rw [Nat.add_mul] at this
    omega
  · exact h
  · have : (r + 1) * d ≤ roundHalfEven n d * d := Nat.mul_le_mul_right d h
    rw [Nat.add_mul] at this
    omega

theorem roundHalfEven_mul_right (n d : Nat) {c : Nat} (hc : 0 < c) :
    roundHalfEven (n * c) (d * c) = roundHalfEven n d := by
  have h : ∀ r, 2 * (r * c) = 2 * r * c := fun r => (Nat.mul_assoc 2 r c).symm
  simp only [roundHalfEven, Nat.mul_div_mul_right n d hc, Nat.mul_mod_mul_right c n d, h,
    Nat.mul_lt_mul_right hc, Nat.mul_right_cancel_iff hc]

namespace Binary64

/-! ### Magnitudes -/

theorem significand_of_lt {m : Nat} (h : m < exponentWeight) : significand m = m := if_pos h

theorem significand_of_le {m : Nat} (h : exponentWeight ≤ m) :
    significand m = exponentWeight + m % exponentWeight := if_neg (Nat.not_lt.2 h)

theorem scale_mul_add_significand (m : Nat) : scale m * exponentWeight + significand m = m := by
  rcases Nat.lt_or_ge m exponentWeight with h | h
  · rw [significand_of_lt h]
    simp only [scale, exponentWeight] at h ⊢
    omega
  · rw [significand_of_le h]
    simp only [scale, exponentWeight] at h ⊢
    omega

theorem significand_lt (m : Nat) : significand m < 2 * exponentWeight := by
  rcases Nat.lt_or_ge m exponentWeight with h | h
  · rw [significand_of_lt h]
    omega
  · rw [significand_of_le h]
    have := Nat.mod_lt m (show 0 < exponentWeight by decide)
    omega

theorem le_significand {m : Nat} (h : 0 < scale m) : exponentWeight ≤ significand m := by
  rw [significand_of_le]
  · exact Nat.le_add_right _ _
  · simp only [scale, exponentWeight] at h ⊢
    omega

theorem units_pos {m : Nat} (h : 0 < m) : 0 < units m := by
  refine Nat.mul_pos ?_ (Nat.pow_pos Nat.two_pos)
  rcases Nat.lt_or_ge m exponentWeight with hm | hm
  · rw [significand_of_lt hm]
    exact h
  · rw [significand_of_le hm]
    exact Nat.add_pos_left (by decide) _

/-! ### Rounding to a magnitude -/

theorem log2_sub_eq {q s : Nat} (h₁ : s = 0 ∨ 2 ^ (s + 52) ≤ q) (h₂ : q < 2 ^ (s + 53)) :
    q.log2 - 52 = s := by
  obtain rfl | hq := Nat.eq_zero_or_pos q
  · rcases h₁ with rfl | h₁
    · rfl
    · exact absurd h₁ (Nat.not_le.2 (Nat.two_pow_pos _))
  · have hu : q.log2 < s + 53 := (Nat.log2_lt hq.ne').2 h₂
    rcases h₁ with rfl | h₁
    · omega
    · have hl : s + 52 ≤ q.log2 := (Nat.le_log2 hq.ne').2 h₁
      omega

/-- A ratio of the scale `s` that is less than half away from the significand `r`. -/
theorem magnitudeOfUnits_eq {n d s r : Nat} (hd : 0 < d)
    (hl : s = 0 ∨ exponentWeight * (d * 2 ^ s) ≤ n) (hu : n < 2 * exponentWeight * (d * 2 ^ s))
    (h₁ : 2 * (r * (d * 2 ^ s)) < 2 * n + d * 2 ^ s)
    (h₂ : 2 * n < 2 * (r * (d * 2 ^ s)) + d * 2 ^ s) :
    magnitudeOfUnits n d = s * exponentWeight + r := by
  have hs : (n / d).log2 - 52 = s := by
    apply log2_sub_eq
    · refine hl.imp_right fun h => (Nat.le_div_iff_mul_le hd).2 (Nat.le_trans (Nat.le_of_eq ?_) h)
      simp only [exponentWeight]
      ring
    · refine (Nat.div_lt_iff_lt_mul hd).2 (Nat.lt_of_lt_of_le hu (Nat.le_of_eq ?_))
      simp only [exponentWeight]
      ring
  simp only [magnitudeOfUnits, hs, Nat.pow_eq]
  rw [roundHalfEven_eq_of_lt h₁ h₂]

/-- Significands of one scale differ by at least what the scale counts. -/
theorem mul_add_le_of_lt {g g' : Nat} (h : g < g') (D : Nat) : g * D + D ≤ g' * D := by
  have : (g + 1) * D ≤ g' * D := Nat.mul_le_mul_right D h
  rwa [Nat.add_mul, Nat.one_mul] at this

/-- A ratio just below a power of two has the scale below, and the significand of it is
rounded up to 54 bits. -/
theorem magnitudeOfUnits_eq_of_below {n d s : Nat} (hd : 0 < d)
    (hn : n < exponentWeight * (d * 2 ^ (s + 1)))
    (h : 19999999999999999 * (exponentWeight * (d * 2 ^ (s + 1))) ≤ 20000000000000000 * n) :
    magnitudeOfUnits n d = (s + 1) * exponentWeight + exponentWeight := by
  have hD : d * 2 ^ (s + 1) = 2 * (d * 2 ^ s) := by
    ring
  rw [hD] at hn h
  rw [magnitudeOfUnits_eq (s := s) (r := 2 * exponentWeight) hd]
  · ring
  all_goals
    simp only [exponentWeight] at *
    omega

/-- **What is rounded to a number**: a ratio that differs from it by at most one part in
`2 · 10 ^ 16`. -/
theorem magnitudeOfUnits_eq_of_near {n d m : Nat} (hd : 0 < d)
    (h₁ : 19999999999999999 * (units m * d) ≤ 20000000000000000 * n)
    (h₂ : 20000000000000000 * n ≤ 20000000000000001 * (units m * d)) :
    magnitudeOfUnits n d = m := by
  have hP : units m * d = significand m * (d * 2 ^ scale m) := by
    rw [units, Nat.pow_eq, Nat.mul_assoc, Nat.mul_comm _ d]
  rw [hP] at h₁ h₂
  have hm := scale_mul_add_significand m
  by_cases hs : scale m = 0 ∨ exponentWeight * (d * 2 ^ scale m) ≤ n
  · have hg := mul_add_le_of_lt (significand_lt m) (d * 2 ^ scale m)
    have hD : 0 < d * 2 ^ scale m := Nat.mul_pos hd (Nat.two_pow_pos _)
    simp only [exponentWeight] at hg
    rw [magnitudeOfUnits_eq (r := significand m) hd hs, hm]
    · simp only [exponentWeight]
      omega
    · omega
    · omega
  · -- the ratio has a smaller scale than the number, which must be a power of two
    rw [not_or, Nat.not_le] at hs
    obtain ⟨hs, hn⟩ := hs
    have hg : exponentWeight = significand m := by
      have hge := le_significand (Nat.pos_of_ne_zero hs)
      refine (Nat.eq_or_lt_of_le hge).resolve_right fun hlt => ?_
      have := mul_add_le_of_lt hlt (d * 2 ^ scale m)
      simp only [exponentWeight] at this hn
      omega
    obtain ⟨s, hs⟩ := Nat.exists_eq_add_one_of_ne_zero hs
    rw [← hg, hs] at h₁ hm
    rw [hs] at hn
    rw [magnitudeOfUnits_eq_of_below hd hn h₁, hm]

/-! ### Only the value matters -/

theorem magnitudeOfUnits_mul_right (n d : Nat) {c : Nat} (hc : 0 < c) :
    magnitudeOfUnits (n * c) (d * c) = magnitudeOfUnits n d := by
  simp only [magnitudeOfUnits, Nat.mul_div_mul_right n d hc, Nat.mul_right_comm d c,
    roundHalfEven_mul_right n _ hc]

theorem ofRatio?_congr {negative : Bool} {n d n' d' : Nat} (hd : 0 < d) (hd' : 0 < d')
    (h : n * d' = n' * d) : ofRatio? negative n d = ofRatio? negative n' d' := by
  have hm : magnitudeOfUnits (n * unitsPerOne) d = magnitudeOfUnits (n' * unitsPerOne) d' := by
    rw [← magnitudeOfUnits_mul_right _ d hd', ← magnitudeOfUnits_mul_right _ d' hd,
      Nat.mul_right_comm n, h, Nat.mul_right_comm n', Nat.mul_comm d d']
  simp only [ofRatio?, hm]

theorem ofRatio?_eq {negative : Bool} {n d : Nat} :
    ofRatio? negative n d =
      if magnitudeOfUnits (n * unitsPerOne) d < infinite then
        some (ofMagnitude negative (magnitudeOfUnits (n * unitsPerOne) d))
      else none := by
  unfold ofRatio?
  rfl

theorem ofRatio?_eq_some {negative : Bool} {n d m : Nat}
    (h : magnitudeOfUnits (n * unitsPerOne) d = m) (hm : m < infinite) :
    ofRatio? negative n d = some (ofMagnitude negative m) := by
  rw [ofRatio?_eq, h, if_pos hm]

theorem ofRatio?_eq_none {negative : Bool} {n d : Nat}
    (h : infinite ≤ magnitudeOfUnits (n * unitsPerOne) d) : ofRatio? negative n d = none := by
  rw [ofRatio?_eq, if_neg (Nat.not_lt.2 h)]

/-- The exponent is a variable, so that nothing tries to compute the power. -/
theorem unitsPerOne_eq {e : Nat} (he : e = 1074) : unitsPerOne = 2 ^ e := by
  unfold unitsPerOne
  rw [← he]
  exact Nat.pow_eq

theorem unitsPerOne_pos : 0 < unitsPerOne := by
  obtain ⟨e, he⟩ : ∃ e, e = 1074 := ⟨_, rfl⟩
  rw [unitsPerOne_eq he]
  exact Nat.two_pow_pos e

theorem add_le_log2_mul_unitsPerOne {n k : Nat} (h : 2 ^ k ≤ n) :
    k + 1074 ≤ (n * unitsPerOne).log2 := by
  obtain ⟨e, he⟩ : ∃ e, e = 1074 := ⟨_, rfl⟩
  have hn : 0 < n := Nat.lt_of_lt_of_le (Nat.two_pow_pos k) h
  rw [← he, Nat.le_log2 (Nat.mul_pos hn unitsPerOne_pos).ne', unitsPerOne_eq he, Nat.pow_add]
  exact Nat.mul_le_mul_right _ h

theorem magnitudeOfUnits_eq_zero {n d : Nat} (h : 2 * n < d) : magnitudeOfUnits n d = 0 := by
  have hm := magnitudeOfUnits_eq (n := n) (d := d) (s := 0) (r := 0) (by omega) (.inl rfl)
  simp only [exponentWeight] at hm
  rw [hm] <;> omega

/-- What has at least `2 ^ 2098` units is too large. -/
theorem infinite_le_magnitudeOfUnits {n : Nat} (h : 2098 ≤ n.log2) :
    infinite ≤ magnitudeOfUnits n 1 := by
  have hn : n ≠ 0 := by
    rintro rfl
    cases h
  have hr : exponentWeight ≤ roundHalfEven n (2 ^ (n.log2 - 52)) := by
    have hq : 2 ^ 52 * 2 ^ (n.log2 - 52) ≤ n := by
      rw [← Nat.pow_add, Nat.add_sub_cancel' (Nat.le_trans (by decide) h)]
      exact Nat.log2_self_le hn
    exact Nat.le_trans ((Nat.le_div_iff_mul_le (Nat.two_pow_pos _)).2 hq) (div_le_roundHalfEven _ _)
  have hs : 2046 * exponentWeight ≤ (n.log2 - 52) * exponentWeight :=
    Nat.mul_le_mul_right _ (by omega)
  simp only [magnitudeOfUnits, Nat.div_one, Nat.one_mul, Nat.pow_eq]
  refine Nat.le_trans ?_ (Nat.add_le_add hs hr)
  decide

end Binary64

/-! ### Decimal numbers -/

/-- What a decimal number is without its sign. -/
def Decimal.absValue (x : Decimal) : ℚ := x.coefficient * 10 ^ x.exponent

theorem ten_zpow_pos (k : Int) : (0 : ℚ) < 10 ^ k := zpow_pos (by norm_num) k

theorem Decimal.absValue_eq_div (x : Decimal) :
    x.absValue =
      (x.coefficient * 10 ^ x.exponent.toNat : Nat) / (10 ^ (-x.exponent).toNat : Nat) := by
  obtain ⟨negative, c, e⟩ := x
  cases e with
  | ofNat e => simp [absValue]
  | negSucc e =>
    have h : (-Int.negSucc e).toNat = e + 1 := rfl
    simp only [absValue, h, zpow_negSucc, Int.toNat_negSucc, pow_zero, mul_one, div_eq_mul_inv,
      Nat.cast_pow, Nat.cast_ofNat]

theorem two_pow_le_ten_pow {k e : Nat} (h : k ≤ 3 * e) : 2 ^ k ≤ 10 ^ e :=
  calc 2 ^ k ≤ 2 ^ (3 * e) := Nat.pow_le_pow_right Nat.two_pos h
    _ = 8 ^ e := Nat.pow_mul 2 3 e
    _ ≤ 10 ^ e := Nat.pow_le_pow_left (by decide) e

namespace Binary64

theorem ofRatio?_eq_none_of_exponent {negative : Bool} {c e : Nat} (hc : 0 < c)
    (he : 1024 ≤ 3 * e) : ofRatio? negative (c * 10 ^ e) 1 = none := by
  have h := Nat.le_trans (two_pow_le_ten_pow he) (Nat.le_mul_of_pos_left _ hc)
  exact ofRatio?_eq_none (infinite_le_magnitudeOfUnits (add_le_log2_mul_unitsPerOne h))

/-- A power of ten that makes the coefficient too small. -/
theorem ofRatio?_eq_zero_of_exponent {negative : Bool} {c e : Nat}
    (he : c.log2 + 1101 < 3 * e) :
    ofRatio? negative c (10 ^ e) = some (ofMagnitude negative 0) := by
  obtain ⟨k, hk⟩ : ∃ k, k = 1074 := ⟨_, rfl⟩
  refine ofRatio?_eq_some (magnitudeOfUnits_eq_zero ?_) (by decide)
  calc 2 * (c * unitsPerOne) < 2 * (2 ^ (c.log2 + 1) * unitsPerOne) := by
        have := Nat.mul_lt_mul_of_pos_right (Nat.lt_log2_self (n := c)) unitsPerOne_pos
        omega
    _ = 2 ^ (c.log2 + 1 + k + 1) := by
        rw [unitsPerOne_eq hk, ← Nat.pow_add, ← Nat.pow_succ']
    _ ≤ 10 ^ e := two_pow_le_ten_pow (by omega)

/-- The answers given without the power of ten are those that it leads to. -/
theorem ofDecimal?_eq_ofRatio? (x : Decimal) :
    ofDecimal? x = ofRatio? x.negative (x.coefficient * 10 ^ x.exponent.toNat)
      (10 ^ (-x.exponent).toNat) := by
  obtain ⟨negative, c, e⟩ := x
  unfold ofDecimal?
  obtain rfl | hc := Nat.eq_zero_or_pos c
  · have hm : magnitudeOfUnits (0 * 10 ^ e.toNat * unitsPerOne) (10 ^ (-e).toNat) = 0 := by
      rw [Nat.zero_mul, Nat.zero_mul]
      exact magnitudeOfUnits_eq_zero (Nat.pow_pos (by decide))
    rw [if_pos rfl, ofRatio?_eq_some hm (by decide)]
  · rw [if_neg (Nat.ne_of_gt hc)]
    cases e with
    | ofNat e =>
      have h₁ : (Int.ofNat e).toNat = e := rfl
      have h₂ : (-Int.ofNat e).toNat = 0 := Int.toNat_neg_natCast e
      rw [h₁, h₂, Nat.pow_zero]
      simp only [Nat.pow_eq]
      split
      · rename_i he
        rw [ofRatio?_eq_none_of_exponent hc he]
      · rfl
    | negSucc e =>
      have h₁ : (Int.negSucc e).toNat = 0 := rfl
      have h₂ : (-Int.negSucc e).toNat = e + 1 := rfl
      rw [h₁, h₂, Nat.pow_zero, Nat.mul_one]
      simp only [Nat.pow_eq]
      split
      · rename_i he
        rw [ofRatio?_eq_zero_of_exponent he]
      · rfl

/-- Decimal numbers of the same sign and value are rounded to the same number. -/
theorem ofDecimal?_congr {x y : Decimal} (hs : x.negative = y.negative)
    (hv : x.absValue = y.absValue) : ofDecimal? x = ofDecimal? y := by
  have hp : ∀ k, 0 < 10 ^ k := fun k => Nat.pow_pos (by decide)
  have hq : ∀ k, ((10 ^ k : Nat) : ℚ) ≠ 0 := fun k => Nat.cast_ne_zero.2 (hp k).ne'
  rw [Decimal.absValue_eq_div, Decimal.absValue_eq_div, div_eq_div_iff (hq _) (hq _)] at hv
  rw [ofDecimal?_eq_ofRatio?, ofDecimal?_eq_ofRatio?, hs]
  exact ofRatio?_congr (hp _) (hp _) (by exact_mod_cast hv)

theorem mul_abs_sub_le {c n u k l : ℚ} (hk : 0 < k) (hl : 0 < l)
    (h : c * |n / k - u / l| ≤ u / l) : c * |n * l - u * k| ≤ u * k :=
  calc c * |n * l - u * k|
      = c * |n / k - u / l| * (k * l) := by
        rw [mul_assoc, ← abs_of_pos (mul_pos hk hl), ← abs_mul]
        field_simp
    _ ≤ u / l * (k * l) := mul_le_mul_of_nonneg_right h (mul_pos hk hl).le
    _ = u * k := by
        field_simp

/-- What a finite number is without its sign. -/
def absValue (x : Binary64) : ℚ := units x.magnitude / unitsPerOne

/-- **What is read as a number**: a decimal number of its sign that differs from it by at
most one part in `2 · 10 ^ 16`. -/
theorem ofDecimal?_eq_of_near {d : Decimal} {x : Binary64} (hx : x.IsFinite)
    (hs : d.negative = x.negative)
    (h : 20000000000000000 * |d.absValue - x.absValue| ≤ x.absValue) : ofDecimal? d = some x := by
  have hU : (0 : ℚ) < unitsPerOne := Nat.cast_pos.2 unitsPerOne_pos
  have hp : 0 < 10 ^ (-d.exponent).toNat := Nat.pow_pos (by decide)
  have hq : (0 : ℚ) < (10 ^ (-d.exponent).toNat : Nat) := Nat.cast_pos.2 hp
  rw [ofDecimal?_eq_ofRatio?, hs]
  conv_rhs => rw [← ofMagnitude_magnitude x]
  rw [Decimal.absValue_eq_div, absValue] at h
  generalize d.coefficient * 10 ^ d.exponent.toNat = n at *
  generalize 10 ^ (-d.exponent).toNat = k at *
  have key := mul_abs_sub_le hq hU h
  obtain ⟨h₁, h₂⟩ := abs_le.1 ((le_div_iff₀' (by norm_num)).2 key)
  refine ofRatio?_eq_some (magnitudeOfUnits_eq_of_near hp ?_ ?_) hx
  · have : (19999999999999999 : ℚ) * (units x.magnitude * k) ≤
        20000000000000000 * (n * unitsPerOne) := by
      linarith
    exact_mod_cast this
  · have : (20000000000000000 : ℚ) * (n * unitsPerOne) ≤
        20000000000000001 * (units x.magnitude * k) := by
      linarith
    exact_mod_cast this

end Binary64

end LoraRelay
