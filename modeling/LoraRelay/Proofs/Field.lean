import LoraRelay.Packet.Parts
import LoraRelay.Proofs.Outcome

/-!
# The layout of fields

A field is its length in two bytes, high byte first, and its content. Here the reader
and the writer of fields are turned into equations between byte strings, and the proofs
about packets use these equations only.

## What is proved

* `Field.read_eq_ok_iff` — a field is read off the front exactly if the bytes begin with
  what the writer makes of its content.
* `Piece.encodeAll_eq_ok_iff` and `Piece.encodeAll_eq_error_iff` — the writer of a
  packet puts its parts one after the other, and fails exactly with the first content
  that is too long.
-/

namespace LoraRelay

/-! ### A field -/

namespace Field

theorem encode_eq_ok_iff {content bytes : Bytes} :
    encode content = .ok bytes ↔
      content.length ≤ maxLength ∧ bytes = lengthBytes content.length ++ content := by
  unfold encode
  split
  · simp only [reduceCtorEq, false_iff, not_and]
    omega
  · simp only [Except.ok.injEq, eq_comm (a := bytes), iff_and_self]
    omega

/-- Two bytes count every length that they can spell. -/
theorem lengthBytes_toNat (hi lo : UInt8) : lengthBytes (256 * hi.toNat + lo.toNat) = [hi, lo] := by
  have := hi.toNat_lt
  have := lo.toNat_lt
  simp only [lengthBytes, List.cons.injEq, and_true]
  constructor
  · apply UInt8.toNat_inj.1
    simp only [UInt8.toNat_ofNat']
    omega
  · apply UInt8.toNat_inj.1
    simp only [UInt8.toNat_ofNat']
    omega

/-- **A field is read off the front** exactly if the bytes begin with it. -/
theorem read_eq_ok_iff {bytes content rest : Bytes} :
    read bytes = .ok (content, rest) ↔
      ∃ front, encode content = .ok front ∧ bytes = front ++ rest := by
  constructor
  · intro h
    unfold read at h
    split at h
    · cases h
    · cases h
    · rename_i hi lo tail
      simp only at h
      split at h
      · cases h
      · rename_i hl
        cases h
        have hn : (tail.take (256 * hi.toNat + lo.toNat)).length = 256 * hi.toNat + lo.toNat := by
          rw [List.length_take]
          omega
        have := hi.toNat_lt
        have := lo.toNat_lt
        refine ⟨_, encode_eq_ok_iff.2 ⟨?_, rfl⟩, ?_⟩
        · rw [hn, maxLength]
          omega
        · rw [hn, lengthBytes_toNat, List.append_assoc, List.take_append_drop]
          rfl
  · rintro ⟨front, he, rfl⟩
    exact read_encode he rest

theorem read_eq_endOfStream_iff {bytes : Bytes} :
    read bytes = .error .endOfStream ↔ bytes = [] := by
  unfold read
  split
  · simp
  · simp
  · simp only
    split <;> simp

theorem required_eq_ok_iff {name : String} {bytes content rest : Bytes} :
    required name bytes = .ok (content, rest) ↔ read bytes = .ok (content, rest) :=
  mapError_eq_ok_iff

theorem sized_eq_ok_iff {n : Nat} {name : String} {bytes rest : Bytes} {a : Octets n} :
    sized n name bytes = .ok (a, rest) ↔ read bytes = .ok (a.toList, rest) := by
  simp only [sized, bind_eq_ok_iff]
  constructor
  · rintro ⟨⟨content, rest'⟩, hr, h⟩
    simp only at h
    split at h
    · rename_i ha
      cases h
      rw [← Octets.ofList?_eq_some_iff.1 ha]
      exact required_eq_ok_iff.1 hr
    · cases h
  · intro hr
    refine ⟨_, required_eq_ok_iff.2 hr, ?_⟩
    simp only [Octets.ofList?_toList]
    rfl

theorem required_of_read_error {bytes : Bytes} {e : FieldError} (name : String)
    (h : read bytes = .error e) : required name bytes = .error (.unreadableField name e) := by
  rw [required, h]
  rfl

theorem sized_of_read_error {bytes : Bytes} {e : FieldError} (n : Nat) (name : String)
    (h : read bytes = .error e) : sized n name bytes = .error (.unreadableField name e) := by
  rw [sized, required_of_read_error name h]
  rfl

theorem sized_of_length_ne {n : Nat} {bytes content rest : Bytes} (name : String)
    (hn : content.length ≠ n) (h : read bytes = .ok (content, rest)) :
    sized n name bytes = .error (.fieldLength name n content.length) := by
  rw [sized, required_eq_ok_iff.2 h]
  simp only [bind, Except.bind, Octets.ofList?, dif_neg hn]
  rfl

theorem finish_eq_ok_iff {kind : PacketKind} {rest : Bytes} :
    finish kind rest = .ok () ↔ rest = [] := by
  unfold finish
  split
  · rename_i h
    simp [h]
  · rename_i h
    simp [h]

end Field

/-! ### The parts of a packet -/

namespace Piece

/-- The length of a part can be counted. -/
def Fits : Piece → Prop
  | field content => content.length ≤ Field.maxLength
  | raw _ => True

/-- The bytes of a part whose length can be counted. -/
def layout : Piece → Bytes
  | field content => Field.lengthBytes content.length ++ content
  | raw bytes => bytes

theorem encode_eq_ok_iff {p : Piece} {bytes : Bytes} :
    p.encode = .ok bytes ↔ p.Fits ∧ bytes = p.layout := by
  cases p with
  | field content => exact Field.encode_eq_ok_iff
  | raw bs => simp [encode, Fits, layout, eq_comm]

theorem encode_eq_error_iff {p : Piece} {e : FieldError} :
    p.encode = .error e ↔
      ∃ content, p = field content ∧ Field.maxLength < content.length ∧
        e = .tooLong content.length := by
  cases p with
  | field content =>
    simp only [encode, Field.encode, field.injEq]
    split
    · rename_i h
      simp [h, eq_comm (a := e)]
    · rename_i h
      simp [h]
  | raw bs => simp [encode]

theorem read_layout_append {content : Bytes} (h : (field content).Fits) (rest : Bytes) :
    Field.read ((field content).layout ++ rest) = .ok (content, rest) :=
  Field.read_encode (encode_eq_ok_iff.2 ⟨h, rfl⟩) rest

theorem forall_fits_iff {ps : List Piece} :
    (∀ p ∈ ps, p.Fits) ↔ ∀ content, field content ∈ ps → content.length ≤ Field.maxLength := by
  constructor
  · intro h content hc
    exact h _ hc
  · intro h p hp
    cases p with
    | field content => exact h content hp
    | raw bytes => exact trivial

/-- **Parts are written one after the other**, if all their lengths can be counted. -/
theorem encodeAll_eq_ok_iff {ps : List Piece} {bytes : Bytes} :
    encodeAll ps = .ok bytes ↔ (∀ p ∈ ps, p.Fits) ∧ bytes = ps.flatMap layout := by
  induction ps generalizing bytes with
  | nil => simp [encodeAll, eq_comm]
  | cons p ps ih =>
    simp only [encodeAll, bind_eq_ok_iff, pure_eq_ok_iff, encode_eq_ok_iff, ih,
      List.forall_mem_cons, List.flatMap_cons]
    constructor
    · rintro ⟨_, ⟨hp, rfl⟩, _, ⟨hps, rfl⟩, rfl⟩
      exact ⟨⟨hp, hps⟩, rfl⟩
    · rintro ⟨⟨hp, hps⟩, rfl⟩
      exact ⟨_, ⟨hp, rfl⟩, _, ⟨hps, rfl⟩, rfl⟩

/-- Parts cannot be written exactly if some content is too long; the first one is told. -/
theorem encodeAll_eq_error_iff {ps : List Piece} {e : FieldError} :
    encodeAll ps = .error e ↔
      ∃ before content after, ps = before ++ field content :: after ∧ (∀ p ∈ before, p.Fits) ∧
        Field.maxLength < content.length ∧ e = .tooLong content.length := by
  induction ps with
  | nil => simp [encodeAll]
  | cons p ps ih =>
    simp only [encodeAll, bind_eq_error_iff, encode_eq_error_iff, encode_eq_ok_iff, ih]
    constructor
    · rintro (⟨content, rfl, hl, rfl⟩ | ⟨_, ⟨hp, rfl⟩, ⟨before, content, after, rfl, hb, hl, rfl⟩ |
        ⟨_, -, h⟩⟩)
      · exact ⟨[], content, ps, rfl, by simp, hl, rfl⟩
      · exact ⟨p :: before, content, after, rfl, List.forall_mem_cons.2 ⟨hp, hb⟩, hl, rfl⟩
      · cases h
    · rintro ⟨_ | ⟨q, before⟩, content, after, h, hb, hl, rfl⟩
      · cases h
        exact .inl ⟨content, rfl, hl, rfl⟩
      · cases h
        obtain ⟨hp, hb⟩ := List.forall_mem_cons.1 hb
        exact .inr ⟨_, ⟨hp, rfl⟩, .inl ⟨before, content, after, rfl, hb, hl, rfl⟩⟩

/-- A field in front of other parts is what is read off, and they are what is left. -/
theorem encodeAll_field_cons_eq_ok_iff {content bytes : Bytes} {ps : List Piece} :
    encodeAll (field content :: ps) = .ok bytes ↔
      ∃ rest, Field.read bytes = .ok (content, rest) ∧ encodeAll ps = .ok rest := by
  simp only [encodeAll, bind_eq_ok_iff, pure_eq_ok_iff, Field.read_eq_ok_iff, encode]
  constructor
  · rintro ⟨front, hf, rest, hr, rfl⟩
    exact ⟨rest, ⟨front, hf, rfl⟩, hr⟩
  · rintro ⟨rest, ⟨front, hf, rfl⟩, hr⟩
    exact ⟨front, hf, rest, hr, rfl⟩

theorem encodeAll_nil_eq_ok_iff {bytes : Bytes} : encodeAll [] = .ok bytes ↔ bytes = [] := by
  simp [encodeAll, eq_comm]

/-- Raw bytes at the end are what is left. -/
theorem encodeAll_raw_eq_ok_iff {last bytes : Bytes} :
    encodeAll [raw last] = .ok bytes ↔ bytes = last := by
  simp [encodeAll_eq_ok_iff, Fits, layout]

/-! ### Packets -/

theorem assemble_eq_ok_iff {ps : List Piece} {bytes : Bytes} :
    assemble ps = .ok bytes ↔ encodeAll ps = .ok bytes :=
  mapError_eq_ok_iff

theorem assemble_eq_error_iff {ps : List Piece} {e : PacketError} :
    assemble ps = .error e ↔
      ∃ before content after, ps = before ++ field content :: after ∧ (∀ p ∈ before, p.Fits) ∧
        Field.maxLength < content.length ∧ e = .unwritableField (.tooLong content.length) := by
  simp only [assemble, mapError_eq_error_iff, encodeAll_eq_error_iff]
  constructor
  · rintro ⟨_, ⟨before, content, after, hps, hb, hl, rfl⟩, rfl⟩
    exact ⟨before, content, after, hps, hb, hl, rfl⟩
  · rintro ⟨before, content, after, hps, hb, hl, rfl⟩
    exact ⟨_, ⟨before, content, after, hps, hb, hl, rfl⟩, rfl⟩

theorem exists_assemble_iff {ps : List Piece} :
    (∃ bytes, assemble ps = .ok bytes) ↔ ∀ p ∈ ps, p.Fits := by
  simp only [assemble_eq_ok_iff, encodeAll_eq_ok_iff]
  exact ⟨fun ⟨_, h, _⟩ => h, fun h => ⟨_, h, rfl⟩⟩

/-- A packet is written, or the length of one of its fields is told to be too large. -/
theorem assemble_ok_or_tooLong (ps : List Piece) :
    (∃ bytes, assemble ps = .ok bytes) ∨
      ∃ content, field content ∈ ps ∧ Field.maxLength < content.length ∧
        assemble ps = .error (.unwritableField (.tooLong content.length)) := by
  cases h : encodeAll ps with
  | ok bytes => exact .inl ⟨bytes, assemble_eq_ok_iff.2 h⟩
  | error e =>
    obtain ⟨before, content, after, hps, -, hl, rfl⟩ := encodeAll_eq_error_iff.1 h
    refine .inr ⟨content, by simp [hps], hl, ?_⟩
    rw [assemble, h]
    rfl

end Piece

end LoraRelay
