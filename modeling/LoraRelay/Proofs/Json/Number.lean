import LoraRelay.Json.Number
import LoraRelay.Proofs.Binary64.Shortest

/-!
# Numbers are read back from a text

An integer and a finite floating-point number are read back from what they are written
as, provided that nothing follows that a number could go on with (`EndsNumber`).

## The model

All that is written is a sign, a whole part, a fraction and an exponent (`IsUnsigned`),
and the reader takes just these parts off one by one. The zeros that it drops at the
end of a fraction count nothing, so that the value is that of the digits written.
-/

namespace LoraRelay.Json

/-! ### Where a number ends -/

/-- No number goes on with the byte. -/
def EndsAt (b : UInt8) : Prop := isDigit b = false ∧ b ≠ 0x2E ∧ b ≠ 0x65 ∧ b ≠ 0x45

instance (b : UInt8) : Decidable (EndsAt b) := inferInstanceAs (Decidable (_ ∧ _))

/-- A number that stands in front ends there. -/
def EndsNumber (rest : Bytes) : Prop := ∀ b ∈ rest.head?, EndsAt b

theorem endsNumber_cons {b : UInt8} {rest : Bytes} (h : EndsAt b) : EndsNumber (b :: rest) := by
  rintro _ ⟨⟩
  exact h

namespace Number

/-! ### Parts of a number -/

/-- No digit stands in front. -/
def EndsDigits (rest : Bytes) : Prop := ∀ b ∈ rest.head?, isDigit b = false

theorem scanDigits_append {ds rest : Bytes} (hd : ∀ c ∈ ds, isDigit c = true)
    (hr : EndsDigits rest) : scanDigits (ds ++ rest) = (ds, rest) := by
  rw [scanDigits, List.takeWhile_append_of_pos hd, List.dropWhile_append_of_pos hd]
  cases rest with
  | nil => simp
  | cons b rest =>
    have hb : isDigit b = false := hr b rfl
    simp [hb]

theorem scanSome_append {ds rest : Bytes} (h0 : ds ≠ []) (hd : ∀ c ∈ ds, isDigit c = true)
    (hr : EndsDigits rest) : scanSome (ds ++ rest) = some (ds, rest) := by
  rw [scanSome, scanDigits_append hd hr, if_neg h0]

theorem scanWhole_append {whole rest : Bytes} (hw : IsWhole whole) (hr : EndsDigits rest) :
    scanWhole (whole ++ rest) = some (whole, rest) := by
  rcases hw with rfl | ⟨b, ds, rfl, hb, hd⟩
  · rfl
  · rw [List.forall_mem_cons] at hd
    rw [List.cons_append, scanWhole, if_neg hb, if_pos hd.1, scanDigits_append hd.2 hr]

/-- A fraction with its point, or nothing. -/
def pointBytes (fraction : Bytes) : Bytes := if fraction = [] then [] else 0x2E :: fraction

theorem scanFraction_append {fraction rest : Bytes} (hf : ∀ c ∈ fraction, isDigit c = true)
    (hr : EndsDigits rest) (hp : ∀ b ∈ rest.head?, b ≠ 0x2E) :
    scanFraction (pointBytes fraction ++ rest) = some (fraction, rest) := by
  unfold pointBytes
  by_cases h0 : fraction = []
  · rw [if_pos h0, h0, List.nil_append]
    cases rest with
    | nil => rfl
    | cons b rest => exact if_neg (hp b rfl)
  · rw [if_neg h0, List.cons_append, scanFraction, if_pos rfl, scanSome_append h0 hf hr]

/-- An exponent with its mark and its sign, or nothing. -/
def exponentBytes : Option Int → Bytes
  | none => []
  | some e => [0x65, if e < 0 then 0x2D else 0x2B] ++ digitBytes e.natAbs

theorem scanSign_cons (negative : Bool) (rest : Bytes) :
    scanSign ((if negative then 0x2D else 0x2B) :: rest) = (negative, rest) := by
  cases negative <;> rfl

theorem scanExponent_append {e : Option Int} {rest : Bytes} (hr : EndsNumber rest) :
    scanExponent (exponentBytes e ++ rest) = some (e, rest) := by
  cases e with
  | none =>
    rw [exponentBytes, List.nil_append]
    cases rest with
    | nil => rfl
    | cons b rest =>
      obtain ⟨-, -, h₁, h₂⟩ := hr b rfl
      exact if_neg (not_or.2 ⟨h₁, h₂⟩)
  | some e =>
    have hd : scanSome (digitBytes e.natAbs ++ rest) = some (digitBytes e.natAbs, rest) :=
      scanSome_append (isWhole_digitBytes _).ne_nil (isWhole_digitBytes _).isDigit
        fun b hb => (hr b hb).1
    have hs : scanSign ((if e < 0 then 0x2D else 0x2B) :: (digitBytes e.natAbs ++ rest)) =
        (decide (e < 0), digitBytes e.natAbs ++ rest) := by
      rw [← scanSign_cons]
      simp only [decide_eq_true_eq]
    rw [exponentBytes, List.append_assoc, List.cons_append, List.cons_append, List.nil_append,
      scanExponent, if_pos (.inl rfl), hs]
    simp only [hd, Option.bind_eq_bind, Option.bind_some, ofDigitBytes_digitBytes,
      decide_eq_true_eq, Option.pure_def]
    split
    · rw [Int.ofNat_natAbs_of_nonpos (by omega), Int.neg_neg]
    · rw [Int.natAbs_of_nonneg (by omega)]

/-! ### Zeros at the end -/

theorem exists_eq_trimZeros_append (ds : Bytes) :
    ∃ k, ds = trimZeros ds ++ List.replicate k 0x30 := by
  obtain ⟨k, hk⟩ : ∃ k, ds.reverse.takeWhile (· = 0x30) = List.replicate k 0x30 :=
    ⟨_, List.eq_replicate_of_mem fun b hb => of_decide_eq_true
      (List.all_eq_true.1 List.all_takeWhile b hb)⟩
  refine ⟨k, ?_⟩
  calc ds
      = (ds.reverse.takeWhile (· = 0x30) ++ ds.reverse.dropWhile (· = 0x30)).reverse := by
        rw [List.takeWhile_append_dropWhile, List.reverse_reverse]
    _ = trimZeros ds ++ List.replicate k 0x30 := by
        rw [List.reverse_append, hk, List.reverse_replicate, trimZeros]

/-- A number of which the parts have been read. -/
def ofParts (negative : Bool) (whole fraction : Bytes) (e : Option Int) : Number :=
  ⟨negative, whole ++ trimZeros fraction, e.getD 0 - (trimZeros fraction).length,
    fraction.isEmpty && e.isNone⟩

/-- The zeros that are dropped count nothing. -/
theorem absValue_ofParts (negative : Bool) (whole fraction : Bytes) (e : Option Int) :
    (ofParts negative whole fraction e).decimal.absValue =
      ofDigitBytes (whole ++ fraction) * (10 : ℚ) ^ (e.getD 0 - fraction.length) := by
  obtain ⟨k, hk⟩ := exists_eq_trimZeros_append fraction
  have hl : (fraction.length : Int) = (trimZeros fraction).length + k := by
    conv_lhs => rw [hk]
    simp
  have he : e.getD 0 - (trimZeros fraction).length = e.getD 0 - fraction.length + k := by
    omega
  calc (ofParts negative whole fraction e).decimal.absValue
      = ofDigitBytes (whole ++ trimZeros fraction) *
          (10 : ℚ) ^ (e.getD 0 - (trimZeros fraction).length) := rfl
    _ = (ofDigitBytes (whole ++ trimZeros fraction) * 10 ^ k : Nat) *
          (10 : ℚ) ^ (e.getD 0 - fraction.length) := by
        rw [he, zpow_add₀ (by norm_num), zpow_natCast]
        push_cast
        ring
    _ = ofDigitBytes (whole ++ fraction) * (10 : ℚ) ^ (e.getD 0 - fraction.length) := by
        congr 2
        conv_rhs => rw [hk, ← List.append_assoc, ofDigitBytes_append, ofDigitBytes_replicate_zero]
        rw [List.length_replicate, Nat.add_zero]

theorem length_digits_ofParts (negative : Bool) (whole fraction : Bytes) (e : Option Int) :
    (ofParts negative whole fraction e).digits.length ≤ (whole ++ fraction).length := by
  obtain ⟨k, hk⟩ := exists_eq_trimZeros_append fraction
  conv_rhs => rw [hk]
  simp [ofParts]

/-! ### Whole numbers -/

/-- The reader takes a number without a sign apart into the parts that it was made of. -/
theorem scanUnsigned_append {negative : Bool} {whole fraction rest : Bytes} {e : Option Int}
    (hw : IsWhole whole) (hf : ∀ c ∈ fraction, isDigit c = true) (hr : EndsNumber rest) :
    scanUnsigned negative (whole ++ (pointBytes fraction ++ (exponentBytes e ++ rest))) =
      some (ofParts negative whole fraction e, rest) := by
  have he : ∀ b ∈ (exponentBytes e ++ rest).head?, isDigit b = false ∧ b ≠ 0x2E := by
    cases e with
    | none => exact fun b hb => ⟨(hr b hb).1, (hr b hb).2.1⟩
    | some e =>
      rintro b ⟨⟩
      decide
  have hp : EndsDigits (pointBytes fraction ++ (exponentBytes e ++ rest)) := by
    unfold pointBytes
    by_cases h0 : fraction = []
    · rw [if_pos h0]
      exact fun b hb => (he b hb).1
    · rw [if_neg h0]
      rintro b ⟨⟩
      decide
  have h₁ := scanWhole_append hw hp
  have h₂ := scanFraction_append hf (fun b hb => (he b hb).1) (fun b hb => (he b hb).2)
  have h₃ := scanExponent_append (e := e) hr
  simp only [scanUnsigned, h₁, h₂, h₃, Option.bind_eq_bind, Option.bind_some, Option.pure_def]
  rfl

theorem scan_append {negative : Bool} {whole fraction rest : Bytes} {e : Option Int}
    (hw : IsWhole whole) (hf : ∀ c ∈ fraction, isDigit c = true) (hr : EndsNumber rest) :
    scan ((if negative then [0x2D] else []) ++
        (whole ++ (pointBytes fraction ++ (exponentBytes e ++ rest)))) =
      some (ofParts negative whole fraction e, rest) := by
  rw [← scanUnsigned_append hw hf hr]
  cases negative with
  | true => rfl
  | false =>
    obtain ⟨b, ds, rfl⟩ := List.exists_cons_of_ne_nil hw.ne_nil
    have hb : b ≠ 0x2D := by
      rintro rfl
      exact absurd (hw.isDigit 0x2D List.mem_cons_self) (by decide)
    exact if_neg hb

end Number

/-! ### What is written -/

open Number

/-- The bytes are a number without a sign, of the value `v` and with at most `n` digits. -/
def IsUnsigned (bytes : Bytes) (v : ℚ) (n : Nat) : Prop :=
  ∃ (whole fraction : Bytes) (e : Option Int),
    bytes = whole ++ (pointBytes fraction ++ exponentBytes e) ∧ IsWhole whole ∧
    (∀ c ∈ fraction, isDigit c = true) ∧
    ofDigitBytes (whole ++ fraction) * (10 : ℚ) ^ (e.getD 0 - fraction.length) = v ∧
    (whole ++ fraction).length ≤ n

/-- What is written is read, whatever its sign. -/
theorem IsUnsigned.exists_scan {bytes : Bytes} {v : ℚ} {n : Nat} (h : IsUnsigned bytes v n)
    (negative : Bool) {rest : Bytes} (hr : EndsNumber rest) :
    ∃ m : Number, scan ((if negative then [0x2D] else []) ++ (bytes ++ rest)) = some (m, rest) ∧
      m.negative = negative ∧ m.decimal.absValue = v ∧ m.digits.length ≤ n := by
  obtain ⟨whole, fraction, e, rfl, hw, hf, hv, hl⟩ := h
  refine ⟨ofParts negative whole fraction e, ?_, rfl, ?_, ?_⟩
  · rw [List.append_assoc, List.append_assoc]
    exact scan_append hw hf hr
  · rw [absValue_ofParts, hv]
  · exact Nat.le_trans (length_digits_ofParts negative whole fraction e) hl

theorem forall_mem_replicate_zero (k : Nat) : ∀ c ∈ List.replicate k 0x30, isDigit c = true := by
  intro c hc
  rw [List.eq_of_mem_replicate hc]
  rfl

theorem isUnsigned_below (c k : Nat) :
    IsUnsigned ([0x30, 0x2E] ++ List.replicate k 0x30 ++ digitBytes c)
      (c * (10 : ℚ) ^ (-(k + digitCount c : Int))) (digitCount c + k + 1) := by
  refine ⟨[0x30], List.replicate k 0x30 ++ digitBytes c, none, ?_, .inl rfl, ?_, ?_, ?_⟩
  · have h0 : List.replicate k 0x30 ++ digitBytes c ≠ [] :=
      List.append_ne_nil_of_right_ne_nil _ (isWhole_digitBytes c).ne_nil
    rw [pointBytes, if_neg h0, exponentBytes, List.append_nil]
    rfl
  · rw [List.forall_mem_append]
    exact ⟨forall_mem_replicate_zero k, (isWhole_digitBytes c).isDigit⟩
  · have hz : ofDigitBytes [0x30] = 0 := rfl
    rw [ofDigitBytes_append, ofDigitBytes_append, hz, ofDigitBytes_replicate_zero,
      ofDigitBytes_digitBytes, Nat.zero_mul, Nat.zero_mul, Nat.zero_add, Nat.zero_add,
      List.length_append, List.length_replicate, length_digitBytes]
    simp
  · simp [length_digitBytes]
    omega

theorem isUnsigned_above {c k : Nat} (h0 : c = 0 → k = 0) :
    IsUnsigned (digitBytes c ++ List.replicate k 0x30 ++ [0x2E, 0x30])
      (c * (10 : ℚ) ^ (k : Int)) (digitCount c + k + 1) := by
  refine ⟨digitBytes c ++ List.replicate k 0x30, [0x30], none, rfl, ?_, ?_, ?_, ?_⟩
  · obtain rfl | hc := Nat.eq_zero_or_pos c
    · rw [h0 rfl, digitBytes_zero]
      exact .inl rfl
    · exact isWhole_append hc (forall_mem_replicate_zero k)
  · exact forall_mem_replicate_zero 1
  · have hz : ofDigitBytes [0x30] = 0 := rfl
    rw [ofDigitBytes_append, ofDigitBytes_append, hz, ofDigitBytes_replicate_zero,
      ofDigitBytes_digitBytes, Nat.add_zero, Nat.add_zero, List.length_replicate]
    simp
  · simp [length_digitBytes]
    omega

theorem isUnsigned_across {c k : Nat} (hk : 0 < k) (hc : k < digitCount c) :
    IsUnsigned ((digitBytes c).take k ++ [0x2E] ++ (digitBytes c).drop k)
      (c * (10 : ℚ) ^ ((k : Int) - digitCount c)) (digitCount c) := by
  have h0 : 0 < c := by
    refine Nat.pos_of_ne_zero ?_
    rintro rfl
    rw [digitCount_zero] at hc
    omega
  refine ⟨(digitBytes c).take k, (digitBytes c).drop k, none, ?_, isWhole_take h0 hk, ?_,
    ?_, ?_⟩
  · have hd : (digitBytes c).drop k ≠ [] := by
      rw [ne_eq, List.drop_eq_nil_iff, length_digitBytes]
      omega
    rw [pointBytes, if_neg hd, exponentBytes, List.append_nil, List.append_assoc]
    rfl
  · exact fun b hb => (isWhole_digitBytes c).isDigit b (List.mem_of_mem_drop hb)
  · rw [List.take_append_drop, ofDigitBytes_digitBytes, List.length_drop, length_digitBytes,
      Option.getD_none, Nat.cast_sub hc.le, Int.zero_sub, Int.neg_sub]
  · rw [List.take_append_drop, length_digitBytes]

/-- The point stands after the first digit, and an exponent follows. -/
theorem isUnsigned_writeScientific {c : Nat} (hc : 0 < c) (e : Int) :
    IsUnsigned (writeScientific (digitBytes c) e)
      (c * (10 : ℚ) ^ (e + 1 - digitCount c)) (digitCount c) := by
  refine ⟨(digitBytes c).take 1, (digitBytes c).drop 1, some e, ?_,
    isWhole_take hc Nat.one_pos, ?_, ?_, ?_⟩
  · have hd : (digitBytes c).drop 1 = [] ↔ (digitBytes c).length ≤ 1 := List.drop_eq_nil_iff
    simp only [writeScientific, pointBytes, exponentBytes, hd, List.append_assoc]
  · exact fun b hb => (isWhole_digitBytes c).isDigit b (List.mem_of_mem_drop hb)
  · have he : e - ((digitBytes c).drop 1).length = e + 1 - digitCount c := by
      have := digitCount_pos c
      rw [List.length_drop, length_digitBytes]
      omega
    rw [List.take_append_drop, ofDigitBytes_digitBytes, Option.getD_some, he]
  · rw [List.take_append_drop, length_digitBytes]

theorem IsUnsigned.mono {bytes : Bytes} {c n n' : Nat} {k k' : Int}
    (h : IsUnsigned bytes (c * 10 ^ k) n) (hk : k = k') (hn : n ≤ n') :
    IsUnsigned bytes (c * 10 ^ k') n' := by
  obtain ⟨whole, fraction, e, hb, hw, hf, hv, hl⟩ := h
  exact ⟨whole, fraction, e, hb, hw, hf, hk ▸ hv, Nat.le_trans hl hn⟩

theorem isUnsigned_writePositional {c : Nat} {e : Int} (h0 : c = 0 → e = 0) (h₁ : -5 ≤ e)
    (h₂ : e ≤ 15) :
    IsUnsigned (writePositional (digitBytes c) e) (c * 10 ^ (e + 1 - digitCount c))
      (digitCount c + 16) := by
  have hc := digitCount_pos c
  simp only [writePositional, length_digitBytes]
  split
  · exact (isUnsigned_below c (e.natAbs - 1)).mono (by omega) (by omega)
  · split
    · refine (isUnsigned_above ?_).mono (by omega) (by omega)
      rintro rfl
      rw [h0 rfl, digitCount_zero]
      rfl
    · exact (isUnsigned_across (by omega) (by omega)).mono (by omega) (by omega)

theorem exists_writeDecimal_eq {x : Decimal} (h0 : x.coefficient = 0 → x.exponent = 0) :
    ∃ bytes, writeDecimal x = (if x.negative then [0x2D] else []) ++ bytes ∧
      IsUnsigned bytes x.absValue (digitCount x.coefficient + 16) := by
  obtain ⟨negative, c, k⟩ := x
  simp only at h0
  have hk : k + digitCount c - 1 + 1 - digitCount c = k := by
    omega
  refine ⟨_, rfl, ?_⟩
  simp only [length_digitBytes, Decimal.absValue]
  split
  · rename_i he
    refine (isUnsigned_writePositional ?_ he.1 he.2).mono hk (Nat.le_refl _)
    rintro rfl
    rw [h0 rfl, digitCount_zero]
    rfl
  · rename_i he
    have hc : 0 < c := by
      refine Nat.pos_of_ne_zero ?_
      rintro rfl
      rw [h0 rfl, digitCount_zero] at he
      exact he (by decide)
    exact (isUnsigned_writeScientific hc _).mono hk (Nat.le_add_right _ _)

/-! ### What is read back -/

/-- **A finite number is read back** from a text. -/
theorem exists_scan_writeBinary64 {x : Binary64} (hx : x.IsFinite) {rest : Bytes}
    (hr : EndsNumber rest) :
    ∃ n : Number, scan (writeBinary64 x ++ rest) = some (n, rest) ∧ n.toBinary64? = some x := by
  obtain ⟨bytes, hb, hu⟩ := exists_writeDecimal_eq (Binary64.exponent_shortest hx)
  obtain ⟨n, hn, hs, hv, hl⟩ := hu.exists_scan x.shortest.negative hr
  refine ⟨n, ?_, ?_⟩
  · rw [writeBinary64, if_pos hx, hb, List.append_assoc]
    exact hn
  · have hd := Binary64.digitCount_shortest_le hx
    have hm : n.digits.length ≤ maxDigits := Nat.le_trans hl (by simp only [maxDigits]; omega)
    rw [toBinary64?, abridged_of_length_le hm, Binary64.ofDecimal?_congr hs hv]
    exact Binary64.ofDecimal?_shortest hx

theorem toInt?_ofParts (i : Int) :
    (ofParts (i < 0) (digitBytes i.natAbs) [] none).toInt? = some i := by
  have hc : (ofParts (i < 0) (digitBytes i.natAbs) [] none).decimal =
      ⟨i < 0, i.natAbs, 0⟩ := by
    rw [decimal, ofParts]
    simp [trimZeros, ofDigitBytes_digitBytes]
  have hi : (ofParts (i < 0) (digitBytes i.natAbs) [] none).integral = true := rfl
  rw [toInt?, hc, if_pos hi]
  by_cases h : i < 0
  · have h0 : i.natAbs ≠ 0 := by
      omega
    simp only [h, decide_true, ↓reduceIte, h0]
    rw [Int.ofNat_natAbs_of_nonpos (by omega), Int.neg_neg]
  · simp only [h, decide_false, Bool.false_eq_true, ↓reduceIte]
    rw [Int.natAbs_of_nonneg (by omega)]

/-- **An integer is read back** from a text. -/
theorem exists_scan_writeInt (i : Int) {rest : Bytes} (hr : EndsNumber rest) :
    ∃ n : Number, scan (writeInt i ++ rest) = some (n, rest) ∧ n.toInt? = some i := by
  refine ⟨_, ?_, toInt?_ofParts i⟩
  rw [← scan_append (isWhole_digitBytes i.natAbs) (List.forall_mem_nil _) hr, writeInt,
    List.append_assoc]
  simp only [decide_eq_true_eq]
  rfl

end LoraRelay.Json
