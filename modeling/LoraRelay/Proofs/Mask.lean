import LoraRelay.Bytes

/-!
# Masks

Some bits of a byte string mean nothing. Which they are is told by a mask, a string
of the same length with the bits set that mean nothing.

## What is proved

* `clear_eq_self_iff` — clearing those bits changes nothing exactly if they are
  all zero.
* the arithmetic of flags and nibbles puts a byte together again without the bits
  that no field has: `weigh_flag_three`, `weigh_flag_two`, `weigh_flag_nibble`,
  `nibbles_div_mod`, `nibbles_div_mod_eight`, `and_not_high`.
-/

namespace LoraRelay

/-- The bytes with the bits of a mask cleared. -/
def clear (mask bytes : Bytes) : Bytes := List.zipWith (fun m b => b &&& ~~~m) mask bytes

/-- The bits of a mask are zero. -/
def IsClear (mask bytes : Bytes) : Prop := ∀ p ∈ mask.zip bytes, p.2 &&& p.1 = 0

instance (mask bytes : Bytes) : Decidable (IsClear mask bytes) :=
  inferInstanceAs (Decidable (∀ p ∈ mask.zip bytes, p.2 &&& p.1 = 0))

/-- The mask of bytes that mean something in every bit. -/
def kept (bytes : Bytes) : Bytes := bytes.map fun _ => 0

/-! ### Clearing -/

@[simp] theorem length_kept (bytes : Bytes) : (kept bytes).length = bytes.length := by
  simp [kept]

theorem length_clear {mask bytes : Bytes} (h : mask.length = bytes.length) :
    (clear mask bytes).length = bytes.length := by
  simp [clear, h]

@[simp] theorem clear_nil : clear [] [] = [] := rfl

@[simp] theorem clear_cons (m b : UInt8) (mask bytes : Bytes) :
    clear (m :: mask) (b :: bytes) = (b &&& ~~~m) :: clear mask bytes := rfl

@[simp] theorem and_not_zero (b : UInt8) : b &&& ~~~(0 : UInt8) = b := by
  apply UInt8.toBitVec_inj.1
  simp

@[simp] theorem clear_kept (bytes : Bytes) : clear (kept bytes) bytes = bytes := by
  induction bytes with
  | nil => rfl
  | cons b bytes ih => simpa [kept] using ih

theorem clear_append {mask₁ mask₂ bytes₁ bytes₂ : Bytes} (h : mask₁.length = bytes₁.length) :
    clear (mask₁ ++ mask₂) (bytes₁ ++ bytes₂) = clear mask₁ bytes₁ ++ clear mask₂ bytes₂ :=
  List.zipWith_append h

/-- Bits that are cleared stay as they are exactly if they are zero. -/
theorem and_not_eq_self_iff {b m : UInt8} : b &&& ~~~m = b ↔ b &&& m = 0 := by
  constructor
  · intro h
    calc b &&& m = (b &&& ~~~m) &&& m := by rw [h]
      _ = 0 := by rw [UInt8.and_assoc, UInt8.not_and_self, UInt8.and_zero]
  · intro h
    calc b &&& ~~~m = (b &&& ~~~m) ||| (b &&& m) := by rw [h, UInt8.or_zero]
      _ = b &&& (~~~m ||| m) := (UInt8.toBitVec_inj.1 BitVec.and_or_distrib_left).symm
      _ = b := by rw [UInt8.not_or_self, UInt8.and_neg_one]

theorem clear_eq_self_iff {mask bytes : Bytes} (h : mask.length = bytes.length) :
    clear mask bytes = bytes ↔ IsClear mask bytes := by
  induction mask generalizing bytes with
  | nil =>
    cases bytes with
    | nil => simp [IsClear]
    | cons b bytes => simp at h
  | cons m mask ih =>
    cases bytes with
    | nil => simp at h
    | cons b bytes =>
      have ih := @ih bytes (by simpa using h)
      simp only [IsClear] at ih
      simp [IsClear, and_not_eq_self_iff, ih]

/-! ### Bytes put together again -/

/-- What holds of the 256 bytes one by one holds of every byte. -/
theorem forall_byte {P : UInt8 → Prop} (h : ∀ i : Fin 256, P ⟨⟨i⟩⟩) (b : UInt8) : P b :=
  h b.toBitVec.toFin

theorem weigh_flag_three (b : UInt8) :
    weigh 4 (flag 4 b) + weigh 2 (flag 2 b) + weigh 1 (flag 1 b) = b &&& ~~~0xF8 := by
  revert b
  exact forall_byte (by decide +kernel)

theorem weigh_flag_two (b : UInt8) :
    weigh 2 (flag 2 b) + weigh 1 (flag 1 b) = b &&& ~~~0xFC := by
  revert b
  exact forall_byte (by decide +kernel)

theorem weigh_flag_nibble (b : UInt8) :
    weigh 32 (flag 32 b) + weigh 16 (flag 16 b) + b % 16 = b &&& ~~~0xC0 := by
  revert b
  exact forall_byte (by decide +kernel)

theorem nibbles_div_mod (b : UInt8) : nibbles (b / 16) (b % 16) = b := by
  revert b
  exact forall_byte (by decide +kernel)

theorem nibbles_div_mod_eight (b : UInt8) : nibbles (b / 16 % 8) (b % 16) = b &&& ~~~0x80 := by
  revert b
  exact forall_byte (by decide +kernel)

theorem and_not_high (b : UInt8) : b &&& ~~~0xF0 = b % 16 := by
  revert b
  exact forall_byte (by decide +kernel)

end LoraRelay
