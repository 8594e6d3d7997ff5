/-!
# Byte strings

Everything on the air and between the tiers is a string of bytes. This module
holds the strings of a fixed length (`Octets`), the two ways to cut one off a
longer string, little-endian words, and the hexadecimal and decimal texts.

## The model

A byte string is a list, so that a layout is an append and a reader is a match.
Cutting is characterized by what it undoes: `split? n s = some (a, r)` exactly
when `s` is `a` followed by `r`.
-/

namespace LoraRelay

/-- A string of bytes. -/
abbrev Bytes := List UInt8

/-- The bytes of a text in ASCII. -/
def ascii (text : String) : Bytes := text.toList.map (·.val.toUInt8)

/-! ### Strings of a fixed length -/

/-- A string of exactly `n` bytes. -/
@[ext] structure Octets (n : Nat) where
  /-- The bytes. -/
  toList : Bytes
  /-- There are `n` of them. -/
  length_toList : toList.length = n
  deriving DecidableEq

attribute [simp] Octets.length_toList

namespace Octets

variable {n : Nat}

/-- The bytes as a string of length `n`, if that is their length. -/
def ofList? (n : Nat) (bytes : Bytes) : Option (Octets n) :=
  if h : bytes.length = n then some ⟨bytes, h⟩ else none

@[simp] theorem ofList?_toList (a : Octets n) : ofList? n a.toList = some a := by
  simp [ofList?]

theorem ofList?_eq_some_iff {bytes : Bytes} {a : Octets n} :
    ofList? n bytes = some a ↔ bytes = a.toList := by
  unfold ofList?
  split
  · rw [Option.some.injEq, Octets.ext_iff]
  · rename_i h
    constructor
    · intro h'
      cases h'
    · rintro rfl
      exact absurd a.length_toList h

/-- The string of `n` zero bytes. -/
def zero (n : Nat) : Octets n := ⟨List.replicate n 0, List.length_replicate⟩

/-- The byte of a string of one. -/
def byte (a : Octets 1) : UInt8 := a.toList.head (List.ne_nil_of_length_pos (by simp))

/-- The bytes in the opposite order. -/
def reverse (a : Octets n) : Octets n := ⟨a.toList.reverse, by simp⟩

@[simp] theorem toList_reverse (a : Octets n) : a.reverse.toList = a.toList.reverse := rfl

@[simp] theorem reverse_reverse (a : Octets n) : a.reverse.reverse = a := by
  ext1
  simp

/-- One string after another. -/
def append {m : Nat} (a : Octets m) (b : Octets n) : Octets (m + n) :=
  ⟨a.toList ++ b.toList, by simp⟩

@[simp] theorem toList_append {m : Nat} (a : Octets m) (b : Octets n) :
    (a.append b).toList = a.toList ++ b.toList := rfl

/-- The first `n` bytes and what follows them, if there are that many. -/
def split? (n : Nat) (bytes : Bytes) : Option (Octets n × Bytes) :=
  (ofList? n (bytes.take n)).map (·, bytes.drop n)

@[simp] theorem split?_append (a : Octets n) (rest : Bytes) :
    split? n (a.toList ++ rest) = some (a, rest) := by
  have h₁ : (a.toList ++ rest).take n = a.toList := by
    rw [List.take_append_of_le_length (by simp), List.take_of_length_le (by simp)]
  have h₂ : (a.toList ++ rest).drop n = rest := by
    rw [List.drop_append_of_le_length (by simp), List.drop_of_length_le (by simp), List.nil_append]
  simp [split?, h₁, h₂]

theorem split?_eq_some_iff {bytes rest : Bytes} {a : Octets n} :
    split? n bytes = some (a, rest) ↔ bytes = a.toList ++ rest := by
  constructor
  · intro h
    simp only [split?, Option.map_eq_some_iff, Prod.mk.injEq] at h
    obtain ⟨_, h, rfl, rfl⟩ := h
    rw [← ofList?_eq_some_iff.1 h, List.take_append_drop]
  · rintro rfl
    exact split?_append a rest

theorem split?_eq_none_iff {bytes : Bytes} : split? n bytes = none ↔ bytes.length < n := by
  simp only [split?, ofList?, Option.map_eq_none_iff, dite_eq_right_iff, reduceCtorEq, imp_false,
    List.length_take]
  omega

theorem exists_append_eq (n : Nat) {bytes : Bytes} (h : n ≤ bytes.length) :
    ∃ (a : Octets n) (rest : Bytes), a.toList ++ rest = bytes := by
  cases hs : split? n bytes with
  | none => exact absurd h (Nat.not_le.2 (split?_eq_none_iff.1 hs))
  | some parts => exact ⟨parts.1, parts.2, (split?_eq_some_iff.1 hs).symm⟩

/-- The last `n` bytes and what precedes them, if there are that many. -/
def splitLast? (n : Nat) (bytes : Bytes) : Option (Bytes × Octets n) :=
  (ofList? n (bytes.drop (bytes.length - n))).map (bytes.take (bytes.length - n), ·)

@[simp] theorem splitLast?_append (start : Bytes) (a : Octets n) :
    splitLast? n (start ++ a.toList) = some (start, a) := by
  simp [splitLast?]

theorem splitLast?_eq_some_iff {bytes start : Bytes} {a : Octets n} :
    splitLast? n bytes = some (start, a) ↔ bytes = start ++ a.toList := by
  constructor
  · intro h
    simp only [splitLast?, Option.map_eq_some_iff, Prod.mk.injEq] at h
    obtain ⟨_, h, rfl, rfl⟩ := h
    rw [← ofList?_eq_some_iff.1 h, List.take_append_drop]
  · rintro rfl
    exact splitLast?_append start a

theorem exists_append_toList_eq (n : Nat) {bytes : Bytes} (h : n ≤ bytes.length) :
    ∃ (start : Bytes) (a : Octets n), start ++ a.toList = bytes :=
  ⟨bytes.take (bytes.length - n), ⟨bytes.drop (bytes.length - n), by rw [List.length_drop]; omega⟩,
    List.take_append_drop _ _⟩

end Octets

/-! ### Little-endian words -/

/-- The two bytes of a word, low byte first. -/
def le16 (w : UInt16) : Octets 2 := ⟨[w.toUInt8, (w / 256).toUInt8], rfl⟩

/-- The word with a low and a high byte. -/
def ofLe16 (lo hi : UInt8) : UInt16 := lo.toUInt16 + 256 * hi.toUInt16

/-- The four bytes of a word, low byte first. -/
def le32 (w : UInt32) : Octets 4 :=
  ⟨[w.toUInt8, (w / 256).toUInt8, (w / 65536).toUInt8, (w / 16777216).toUInt8], rfl⟩

theorem toNat_ofLe16 (lo hi : UInt8) : (ofLe16 lo hi).toNat = lo.toNat + 256 * hi.toNat := by
  have h₁ := lo.toNat_lt
  have h₂ := hi.toNat_lt
  simp [ofLe16, UInt16.toNat_add, UInt16.toNat_mul]
  omega

theorem ofLe16_le16 (w : UInt16) : ofLe16 w.toUInt8 (w / 256).toUInt8 = w := by
  apply UInt16.toNat_inj.1
  have := w.toNat_lt
  simp [ofLe16, UInt16.toNat_add, UInt16.toNat_mul]
  omega

theorem le16_ofLe16 (lo hi : UInt8) : (le16 (ofLe16 lo hi)).toList = [lo, hi] := by
  have h₁ := lo.toNat_lt
  have h₂ := hi.toNat_lt
  simp only [le16, ofLe16, List.cons.injEq, and_true]
  constructor
  · apply UInt8.toNat_inj.1
    simp
  · apply UInt8.toNat_inj.1
    simp [UInt16.toNat_add, UInt16.toNat_mul]
    omega

/-! ### Bits and nibbles -/

/-- Whether the bit of weight `w`, a power of two, is set. -/
def flag (w byte : UInt8) : Bool := byte / w % 2 == 1

/-- The weight `w` if the flag is on. -/
def weigh (w : UInt8) (on : Bool) : UInt8 := if on then w else 0

/-- The byte with a high and a low nibble. -/
def nibbles (high low : UInt8) : UInt8 := high * 16 + low

theorem uint8_mod_of_lt {a n : UInt8} (h : a < n) : a % n = a := by
  apply UInt8.toNat_inj.1
  rw [UInt8.lt_iff_toNat_lt] at h
  simp [Nat.mod_eq_of_lt h]

theorem nibbles_div {high low : UInt8} (hh : high < 16) (hl : low < 16) :
    nibbles high low / 16 = high := by
  apply UInt8.toNat_inj.1
  rw [UInt8.lt_iff_toNat_lt] at hh hl
  simp at hh hl
  simp [nibbles, UInt8.toNat_add, UInt8.toNat_mul]
  omega

theorem nibbles_mod {high low : UInt8} (hl : low < 16) : nibbles high low % 16 = low := by
  apply UInt8.toNat_inj.1
  rw [UInt8.lt_iff_toNat_lt] at hl
  simp at hl
  simp [nibbles, UInt8.toNat_add, UInt8.toNat_mul]
  omega

/-! ### Texts -/

/-- The bytes of a text in UTF-8. -/
def utf8 (text : String) : Bytes := text.toUTF8.data.toList

/-- The text whose bytes in UTF-8 these are, if they are well formed. -/
def ofUtf8? (bytes : Bytes) : Option String := String.fromUTF8? ⟨bytes.toArray⟩

@[simp] theorem ofUtf8?_utf8 (text : String) : ofUtf8? (utf8 text) = some text := by
  have h : (⟨(utf8 text).toArray⟩ : ByteArray) = text.toUTF8 := by
    simp [utf8]
  rw [ofUtf8?, h]
  simp [String.fromUTF8?, String.fromUTF8, text.isValidUTF8]

/-- The digit of a value below 16, in upper case. -/
def hexDigit (d : UInt8) : Char :=
  Char.ofNat (if d < 10 then 48 + d.toNat else 55 + d.toNat)

/-- Two upper-case digits for each byte. -/
def hex (bytes : Bytes) : String :=
  String.ofList (bytes.flatMap fun b => [hexDigit (b / 16), hexDigit (b % 16)])

/-- A byte as `0x` and two lower-case digits. -/
def hexByte (b : UInt8) : String :=
  "0x" ++ String.ofList [(hexDigit (b / 16)).toLower, (hexDigit (b % 16)).toLower]

end LoraRelay
