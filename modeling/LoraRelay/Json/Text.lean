import LoraRelay.Bytes

/-!
# Quoted texts

A text stands between quotation marks. Inside, a backslash starts an escape: a
letter that stands for one byte, or `u` and four digits for a unit of UTF-16.

## The model

`quote` works byte by byte on the UTF-8 form, since whatever is escaped is a byte of
its own. Reading has two steps. `scanParts` finds the end of a text and cuts it into
bytes and escaped units; this is all that a text needs to be passed over. `ofParts?`
makes a text of the parts: escaped surrogates must come in pairs, and the bytes must
be UTF-8.
-/

namespace LoraRelay.Json

/-- The mark at both ends of a text. -/
def quoteMark : UInt8 := 0x22

/-- The mark in front of an escape. -/
def backslash : UInt8 := 0x5C

/-- The bytes that are written as a backslash and a letter, with the letter. -/
def escapes : List (UInt8 × UInt8) :=
  [(0x22, 0x22), (0x5C, 0x5C), (0x08, 0x62), (0x0C, 0x66), (0x0A, 0x6E), (0x0D, 0x72), (0x09, 0x74)]

/-! ### Writing -/

/-- The digit of a value below 16, in lower case. -/
def hexLetter (d : UInt8) : UInt8 := if d < 10 then 0x30 + d else 0x57 + d

/-- A byte of a text: marks and control characters are escaped. -/
def escape (b : UInt8) : Bytes :=
  match escapes.find? (·.1 = b) with
  | some (_, letter) => [backslash, letter]
  | none =>
    if b < 0x20 then [backslash, 0x75, 0x30, 0x30, hexLetter (b / 16), hexLetter (b % 16)] else [b]

/-- A text between quotation marks. -/
def quote (text : String) : Bytes := quoteMark :: (utf8 text).flatMap escape ++ [quoteMark]

/-! ### Finding the end -/

/-- A part of a text as it is written. -/
inductive TextPart where
  /-- A byte, as it stands or by its letter. -/
  | byte (b : UInt8)
  /-- An escaped unit of UTF-16. -/
  | unit (u : UInt16)
  deriving DecidableEq

/-- The value of a hexadecimal digit of either case. -/
def hexValue? (b : UInt8) : Option Nat :=
  if 0x30 ≤ b ∧ b ≤ 0x39 then some (b.toNat - 0x30)
  else if 0x41 ≤ b ∧ b ≤ 0x46 then some (b.toNat - 0x37)
  else if 0x61 ≤ b ∧ b ≤ 0x66 then some (b.toNat - 0x57)
  else none

/-- The unit that four digits stand for. -/
def unitOfHex? (a b c d : UInt8) : Option UInt16 := do
  return UInt16.ofNat
    (4096 * (← hexValue? a) + 256 * (← hexValue? b) + 16 * (← hexValue? c) + (← hexValue? d))

/-- What a letter after a backslash stands for. A slash may be escaped. -/
def byteOfLetter? (letter : UInt8) : Option UInt8 :=
  ((0x2F, 0x2F) :: escapes).find? (·.2 = letter) |>.map (·.1)

/-- The escape whose backslash has been read. -/
def scanEscape : Bytes → Option (TextPart × Bytes)
  | [] => none
  | letter :: rest =>
    if letter = 0x75 then
      match rest with
      | a :: b :: c :: d :: rest => (unitOfHex? a b c d).map (.unit ·, rest)
      | _ => none
    else (byteOfLetter? letter).map (.byte ·, rest)

theorem length_of_scanEscape {bytes rest : Bytes} {p : TextPart}
    (h : scanEscape bytes = some (p, rest)) : rest.length < bytes.length := by
  unfold scanEscape at h
  split at h
  · cases h
  · split at h
    · split at h
      · simp only [Option.map_eq_some_iff, Prod.mk.injEq] at h
        obtain ⟨_, _, _, rfl⟩ := h
        simp only [List.length_cons]
        omega
      · cases h
    · simp only [Option.map_eq_some_iff, Prod.mk.injEq] at h
      obtain ⟨_, _, _, rfl⟩ := h
      simp

/-- The parts of a text up to its end, those of `done` having been read before in
reverse order, and the bytes after it. -/
def scanParts (done : List TextPart) (bytes : Bytes) : Option (List TextPart × Bytes) :=
  match bytes with
  | [] => none
  | b :: rest =>
    if b = quoteMark then some (done.reverse, rest)
    else if b = backslash then
      match _h : scanEscape rest with
      | none => none
      | some (p, rest') => scanParts (p :: done) rest'
    else if b < 0x20 then none
    else scanParts (.byte b :: done) rest
termination_by bytes.length
decreasing_by
  · have := length_of_scanEscape _h
    simp
    omega
  · simp

theorem length_of_scanParts {done ps : List TextPart} {bytes rest : Bytes}
    (h : scanParts done bytes = some (ps, rest)) : rest.length < bytes.length := by
  fun_induction scanParts done bytes with
  | case1 => cases h
  | case2 =>
    cases h
    simp
  | case3 => cases h
  | case4 _ _ _ _ he _ ih =>
    have := length_of_scanEscape he
    have := ih h
    simp
    omega
  | case5 => cases h
  | case6 _ _ _ _ _ _ ih =>
    have := ih h
    simp
    omega

/-! ### The text -/

/-- A unit that starts a pair. -/
def IsLeading (u : UInt16) : Prop := 0xD800 ≤ u ∧ u < 0xDC00

/-- A unit that ends a pair. -/
def IsTrailing (u : UInt16) : Prop := 0xDC00 ≤ u ∧ u < 0xE000

instance (u : UInt16) : Decidable (IsLeading u) := inferInstanceAs (Decidable (_ ∧ _))

instance (u : UInt16) : Decidable (IsTrailing u) := inferInstanceAs (Decidable (_ ∧ _))

/-- The number of the character that a pair stands for. -/
def pairValue (u v : UInt16) : Nat := 0x400 * (u - 0xD800).toNat + (v - 0xDC00).toNat + 0x10000

/-- The character with a given number. -/
def charBytes (n : Nat) : Bytes := String.utf8EncodeChar (Char.ofNat n)

/-- The bytes of parts, those of `done` having been made before in reverse order. -/
def joinParts (done : Bytes) : List TextPart → Option Bytes
  | [] => some done.reverse
  | .byte b :: ps => joinParts (b :: done) ps
  | .unit u :: ps =>
    if IsTrailing u then none
    else if IsLeading u then
      match ps with
      | .unit v :: qs =>
        if IsTrailing v then
          joinParts ((charBytes (pairValue u v)).reverse ++ done) qs
        else none
      | _ => none
    else joinParts ((charBytes u.toNat).reverse ++ done) ps

/-- The text made of parts, if they make one. -/
def ofParts? (ps : List TextPart) : Option String := (joinParts [] ps).bind ofUtf8?

/-! ### What is written is read back -/

/-- The part that a written byte is read as: control characters without a letter of
their own are units. -/
def partOf (b : UInt8) : TextPart :=
  if (escapes.find? (·.1 = b)).isNone ∧ b < 0x20 then .unit b.toUInt16 else .byte b

/-- A written byte is itself or a whole escape. -/
def IsWritten (b : UInt8) : Bytes → Prop
  | [c] => c = b ∧ b ≠ quoteMark ∧ b ≠ backslash ∧ ¬ b < 0x20 ∧ partOf b = .byte b
  | c :: bs => c = backslash ∧ scanEscape bs = some (partOf b, [])
  | [] => False

instance (b : UInt8) (bs : Bytes) : Decidable (IsWritten b bs) :=
  match bs with
  | [] => inferInstanceAs (Decidable False)
  | [_] => inferInstanceAs (Decidable (_ ∧ _))
  | _ :: _ :: _ => inferInstanceAs (Decidable (_ ∧ _))

theorem isWritten_escape (b : UInt8) : IsWritten b (escape b) := by
  have key : ∀ i : Fin 256, IsWritten ⟨⟨i⟩⟩ (escape ⟨⟨i⟩⟩) := by
    decide +kernel
  exact key b.toBitVec.toFin

theorem scanEscape_append {bytes rest : Bytes} {p : TextPart}
    (h : scanEscape bytes = some (p, rest)) (tail : Bytes) :
    scanEscape (bytes ++ tail) = some (p, rest ++ tail) := by
  unfold scanEscape at h
  split at h
  · cases h
  · split at h
    · split at h
      · simp only [Option.map_eq_some_iff] at h
        simp_all [scanEscape]
      · cases h
    · simp only [Option.map_eq_some_iff] at h
      simp_all [scanEscape]

theorem scanParts_escape (done : List TextPart) (b : UInt8) (rest : Bytes) :
    scanParts done (escape b ++ rest) = scanParts (partOf b :: done) rest := by
  have h := isWritten_escape b
  unfold IsWritten at h
  split at h
  · rename_i he
    obtain ⟨rfl, h₁, h₂, h₃, h₄⟩ := h
    rw [he, h₄, List.cons_append, scanParts, if_neg h₁, if_neg h₂, if_neg h₃]
    rfl
  · rename_i he
    obtain ⟨rfl, h⟩ := h
    have h := scanEscape_append h rest
    rw [he, List.cons_append, scanParts, if_neg (by decide), if_pos rfl]
    split
    · rename_i h'
      rw [h] at h'
      cases h'
    · rename_i h'
      rw [h] at h'
      cases h'
      rfl
  · cases h

theorem scanParts_flatMap_escape (done : List TextPart) (bytes rest : Bytes) :
    scanParts done (bytes.flatMap escape ++ quoteMark :: rest) =
      some (done.reverse ++ bytes.map partOf, rest) := by
  induction bytes generalizing done with
  | nil =>
    rw [List.flatMap_nil, List.nil_append, scanParts, if_pos rfl]
    simp
  | cons b bytes ih => simp [scanParts_escape, ih]

theorem joinParts_unit {u : UInt16} (h : u < 0xD800) (done : Bytes) (ps : List TextPart) :
    joinParts done (.unit u :: ps) = joinParts ((charBytes u.toNat).reverse ++ done) ps := by
  have hl : ¬ IsLeading u := fun h' => absurd h'.1 (UInt16.not_le.2 h)
  have ht : ¬ IsTrailing u := fun h' =>
    absurd h'.1 (UInt16.not_le.2 (UInt16.lt_trans h (by decide)))
  rw [joinParts.eq_def]
  simp only [if_neg ht, if_neg hl]

theorem joinParts_partOf (done : Bytes) (b : UInt8) (ps : List TextPart) :
    joinParts done (partOf b :: ps) = joinParts (b :: done) ps := by
  unfold partOf
  split
  · rename_i h
    have key : ∀ i : Fin 32, charBytes i = [UInt8.ofNat i] ∧ (UInt8.ofNat i).toUInt16 < 0xD800 := by
      decide +kernel
    obtain ⟨h₁, h₂⟩ := key ⟨b.toNat, UInt8.lt_iff_toNat_lt.1 h.2⟩
    simp only [UInt8.ofNat_toNat] at h₁ h₂
    rw [joinParts_unit h₂]
    simp [h₁]
  · rfl

theorem joinParts_map_partOf (done bytes : Bytes) :
    joinParts done (bytes.map partOf) = some (done.reverse ++ bytes) := by
  induction bytes generalizing done with
  | nil => simp [joinParts]
  | cons b bytes ih => simp [joinParts_partOf, ih]

/-- The parts of a written text make that text. -/
theorem ofParts?_map_partOf (text : String) : ofParts? ((utf8 text).map partOf) = some text := by
  simp [ofParts?, joinParts_map_partOf]

end LoraRelay.Json
