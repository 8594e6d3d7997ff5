import LoraRelay.Json.Token
import LoraRelay.Proofs.Json.Number

/-!
# What is written is cut into tokens

A mark, a truth value, a quoted text and a number that stand in front of a text are the
next token of it, and the rest of the text follows. Only a number asks something of the
rest (`EndsNumber`).
-/

namespace LoraRelay.Json.Token

variable {done : List Token} {rest : Bytes}

/-- One token is taken off the front. -/
theorem scanAll_cons {b : UInt8} {t : Token} {bytes : Bytes} (hb : isBlank b = false)
    (h : scan b bytes = some (t, rest)) : scanAll done (b :: bytes) = scanAll (t :: done) rest := by
  rw [scanAll, if_neg (Bool.eq_false_iff.1 hb)]
  split
  · rename_i h'
    rw [h] at h'
    cases h'
  · rename_i h'
    rw [h] at h'
    cases h'
    rfl

theorem scanAll_nil : scanAll done [] = some done.reverse := by
  rw [scanAll]

theorem scanAll_mark {b : UInt8} {t : Token} (h : ofMark? b = some t) :
    scanAll done (b :: rest) = scanAll (t :: done) rest := by
  have hb : isBlank b = false := by
    have key : ∀ i : Fin 256, (ofMark? ⟨⟨i⟩⟩).isSome → isBlank ⟨⟨i⟩⟩ = false := by
      decide +kernel
    exact key b.toBitVec.toFin (Option.isSome_of_eq_some h)
  exact scanAll_cons hb (by rw [scan, h])

theorem scanAll_bool (value : Bool) :
    scanAll done (ascii (if value then "true" else "false") ++ rest) =
      scanAll (.bool value :: done) rest := by
  cases value with
  | true => exact scanAll_cons (by decide) rfl
  | false => exact scanAll_cons (by decide) rfl

/-- The token of a quoted text. -/
def ofText (s : String) : Token := .text ((utf8 s).map partOf)

theorem scanAll_quote (s : String) :
    scanAll done (quote s ++ rest) = scanAll (ofText s :: done) rest := by
  have h : scanParts [] ((utf8 s).flatMap escape ++ quoteMark :: rest) =
      some ((utf8 s).map partOf, rest) := scanParts_flatMap_escape [] (utf8 s) rest
  have hq : quote s ++ rest = quoteMark :: ((utf8 s).flatMap escape ++ quoteMark :: rest) := by
    simp [quote]
  have hs : scan quoteMark ((utf8 s).flatMap escape ++ quoteMark :: rest) =
      some (ofText s, rest) := by
    have hm : ofMark? quoteMark = none := by
      decide
    simp only [scan, hm, ↓reduceIte, h]
    rfl
  rw [hq, scanAll_cons (by decide) hs]

/-- A number starts with a minus or a digit, and no other token does. -/
theorem of_scan_number {b : UInt8} {bytes : Bytes} {n : Number}
    (h : Number.scan (b :: bytes) = some (n, rest)) :
    isBlank b = false ∧ ofMark? b = none ∧ b ≠ quoteMark ∧ b ≠ 0x6E ∧ b ≠ 0x74 ∧ b ≠ 0x66 := by
  have hb : b = 0x2D ∨ isDigit b = true := by
    rw [Number.scan] at h
    by_cases h₁ : b = 0x2D
    · exact .inl h₁
    · rw [if_neg h₁, Number.scanUnsigned, Option.bind_eq_bind, Option.bind_eq_some_iff] at h
      obtain ⟨_, hw, -⟩ := h
      by_contra hd
      have h₂ : b ≠ 0x30 := by
        rintro rfl
        exact hd (.inr rfl)
      have h₀ : Number.scanWhole (b :: bytes) = none := by
        rw [Number.scanWhole, if_neg h₂, if_neg (not_or.1 hd).2]
      rw [h₀] at hw
      cases hw
  have key : ∀ i : Fin 256, (⟨⟨i⟩⟩ : UInt8) = 0x2D ∨ isDigit ⟨⟨i⟩⟩ = true →
      isBlank ⟨⟨i⟩⟩ = false ∧ ofMark? ⟨⟨i⟩⟩ = none ∧ (⟨⟨i⟩⟩ : UInt8) ≠ quoteMark ∧
        (⟨⟨i⟩⟩ : UInt8) ≠ 0x6E ∧ (⟨⟨i⟩⟩ : UInt8) ≠ 0x74 ∧ (⟨⟨i⟩⟩ : UInt8) ≠ 0x66 := by
    decide +kernel
  exact key b.toBitVec.toFin hb

theorem scanAll_number {bytes : Bytes} {n : Number} (h : Number.scan bytes = some (n, rest)) :
    scanAll done bytes = scanAll (.number n :: done) rest := by
  cases bytes with
  | nil => cases h
  | cons b bytes =>
    obtain ⟨hb, hm, hq, h₁, h₂, h₃⟩ := of_scan_number h
    refine scanAll_cons hb ?_
    rw [scan, hm, if_neg hq, scanScalar, if_neg h₁, if_neg h₂, if_neg h₃, h]
    rfl

end LoraRelay.Json.Token
