import LoraRelay.Decimal
import Mathlib.Data.Nat.Digits.Defs
import Mathlib.Tactic.Ring

/-!
# Digits

What is written in digits is read as the number that it was.

## The model

Written digits stand for a number by Horner's rule, so that digits that follow others
shift these by their count (`ofDigitBytes_append`). A number has no needless zero in
front (`IsWhole`): the reader of a text insists on this.
-/

namespace LoraRelay

/-! ### How many digits -/

theorem digitCount_pos (n : Nat) : 0 < digitCount n := Nat.length_toDigits_pos

theorem digitCount_le_iff {n k : Nat} (hk : 0 < k) : digitCount n ≤ k ↔ n < 10 ^ k :=
  Nat.length_toDigits_le_iff (by decide) hk

theorem digitCount_zero : digitCount 0 = 1 := rfl

theorem lt_pow_digitCount (n : Nat) : n < 10 ^ digitCount n :=
  (digitCount_le_iff (digitCount_pos n)).1 (Nat.le_refl _)

theorem pow_le_of_digitCount_eq {n k : Nat} (hn : 0 < n) (hk : digitCount n = k + 1) :
    10 ^ k ≤ n := by
  obtain rfl | hp := Nat.eq_zero_or_pos k
  · exact hn
  · refine Nat.not_lt.1 fun h => ?_
    have := (digitCount_le_iff hp).2 h
    omega

/-! ### Bytes -/

/-- The digit of a value below ten. -/
def digitByte (d : Nat) : UInt8 := 0x30 + UInt8.ofNat d

theorem length_digitBytes (n : Nat) : (digitBytes n).length = digitCount n := List.length_map _

theorem digitByte_eq {d : Nat} (h : d < 10) : (Nat.digitChar d).val.toUInt8 = digitByte d := by
  have key : ∀ i : Fin 10, (Nat.digitChar i).val.toUInt8 = digitByte i := by decide
  exact key ⟨d, h⟩

theorem isDigit_digitByte {d : Nat} (h : d < 10) : isDigit (digitByte d) = true := by
  have key : ∀ i : Fin 10, isDigit (digitByte i) = true := by decide
  exact key ⟨d, h⟩

theorem digitByte_sub {d : Nat} (h : d < 10) : (digitByte d - 0x30).toNat = d := by
  have key : ∀ i : Fin 10, (digitByte i - 0x30).toNat = i := by decide
  exact key ⟨d, h⟩

theorem digitByte_ne_zero {d : Nat} (h : d < 10) (h0 : 0 < d) : digitByte d ≠ 0x30 := by
  have key : ∀ i : Fin 10, 0 < i.val → digitByte i ≠ 0x30 := by decide
  exact key ⟨d, h⟩ h0

theorem digitBytes_of_lt {n : Nat} (h : n < 10) : digitBytes n = [digitByte n] := by
  rw [digitBytes, Nat.toDigits_of_lt_base h, List.map_singleton, digitByte_eq h]

theorem digitBytes_of_le {n : Nat} (h : 10 ≤ n) :
    digitBytes n = digitBytes (n / 10) ++ [digitByte (n % 10)] := by
  rw [digitBytes, Nat.toDigits_of_base_le (by decide) h, List.map_append, List.map_singleton,
    digitByte_eq (Nat.mod_lt n (by decide)), digitBytes]

/-! ### Horner's rule -/

/-- A value that has been read is shifted by the digits that follow. -/
theorem foldl_digits (ys : List UInt8) (n : Nat) :
    ys.foldl (fun n b => 10 * n + (b - 0x30).toNat) n = n * 10 ^ ys.length + ofDigitBytes ys := by
  unfold ofDigitBytes
  induction ys generalizing n with
  | nil => simp
  | cons y ys ih =>
    rw [List.foldl_cons, List.foldl_cons, ih, ih (10 * 0 + _), List.length_cons]
    ring

theorem ofDigitBytes_append (xs ys : List UInt8) :
    ofDigitBytes (xs ++ ys) = ofDigitBytes xs * 10 ^ ys.length + ofDigitBytes ys := by
  rw [ofDigitBytes, List.foldl_append, foldl_digits]
  rfl

theorem ofDigitBytes_replicate_zero (k : Nat) : ofDigitBytes (List.replicate k 0x30) = 0 := by
  induction k with
  | zero => rfl
  | succ k ih =>
    rw [List.replicate_succ', ofDigitBytes_append, ih]
    rfl

theorem ofDigitBytes_digitBytes (n : Nat) : ofDigitBytes (digitBytes n) = n := by
  induction n using Nat.strongRecOn with
  | ind n ih =>
    have hs : ∀ {d}, d < 10 → ofDigitBytes [digitByte d] = d := fun h => by
      simp [ofDigitBytes, digitByte_sub h]
    rcases Nat.lt_or_ge n 10 with h | h
    · rw [digitBytes_of_lt h, hs h]
    · rw [digitBytes_of_le h, ofDigitBytes_append, ih (n / 10) (by omega),
        hs (Nat.mod_lt n (by decide)), List.length_singleton]
      omega

/-! ### Whole parts -/

/-- Digits without a needless zero in front. -/
def IsWhole (digits : List UInt8) : Prop :=
  digits = [0x30] ∨ ∃ b rest, digits = b :: rest ∧ b ≠ 0x30 ∧ ∀ c ∈ digits, isDigit c = true

theorem IsWhole.isDigit {digits : List UInt8} (h : IsWhole digits) :
    ∀ c ∈ digits, isDigit c = true := by
  rcases h with rfl | ⟨b, rest, rfl, -, h⟩
  · intro c hc
    rw [List.mem_singleton.1 hc]
    rfl
  · exact h

theorem IsWhole.ne_nil {digits : List UInt8} (h : IsWhole digits) : digits ≠ [] := by
  rintro rfl
  rcases h with h | ⟨b, rest, h, -⟩
  · cases h
  · cases h

theorem digitBytes_zero : digitBytes 0 = [0x30] := digitBytes_of_lt (by decide)

/-- The digits of a number other than zero do not start with a zero. -/
theorem exists_digitBytes_eq_cons {n : Nat} (hn : 0 < n) :
    ∃ b rest, digitBytes n = b :: rest ∧ b ≠ 0x30 ∧ ∀ c ∈ digitBytes n, isDigit c = true := by
  induction n using Nat.strongRecOn with
  | ind n ih =>
    rcases Nat.lt_or_ge n 10 with h | h
    · refine ⟨digitByte n, [], digitBytes_of_lt h, digitByte_ne_zero h hn, ?_⟩
      rw [digitBytes_of_lt h, List.forall_mem_singleton]
      exact isDigit_digitByte h
    · obtain ⟨b, rest, he, hb, hd⟩ := ih (n / 10) (by omega) (by omega)
      refine ⟨b, rest ++ [digitByte (n % 10)], ?_, hb, ?_⟩
      · rw [digitBytes_of_le h, he, List.cons_append]
      · rw [digitBytes_of_le h, List.forall_mem_append, List.forall_mem_singleton]
        exact ⟨hd, isDigit_digitByte (Nat.mod_lt n (by decide))⟩

theorem isWhole_digitBytes (n : Nat) : IsWhole (digitBytes n) := by
  obtain rfl | hn := Nat.eq_zero_or_pos n
  · exact .inl digitBytes_zero
  · exact .inr (exists_digitBytes_eq_cons hn)

theorem isWhole_append {n : Nat} (hn : 0 < n) {ds : List UInt8}
    (hd : ∀ c ∈ ds, isDigit c = true) : IsWhole (digitBytes n ++ ds) := by
  obtain ⟨b, rest, he, hb, hr⟩ := exists_digitBytes_eq_cons hn
  refine .inr ⟨b, rest ++ ds, by rw [he, List.cons_append], hb, ?_⟩
  rw [List.forall_mem_append]
  exact ⟨hr, hd⟩

theorem isWhole_take {n k : Nat} (hn : 0 < n) (hk : 0 < k) :
    IsWhole ((digitBytes n).take k) := by
  obtain ⟨b, rest, he, hb, hr⟩ := exists_digitBytes_eq_cons hn
  obtain ⟨k, rfl⟩ := Nat.exists_eq_add_one_of_ne_zero hk.ne'
  refine .inr ⟨b, rest.take k, by rw [he, List.take_succ_cons], hb, ?_⟩
  exact fun c hc => hr c (List.mem_of_mem_take hc)

end LoraRelay
