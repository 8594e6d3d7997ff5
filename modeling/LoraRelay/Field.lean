import LoraRelay.Bytes

/-!
# Fields

Packets between the tiers are made of fields: two bytes with the length, high byte
first, and as many bytes of content. Some bytes may follow raw, without a length.

## The model

`Piece.encodeAll` writes fields and raw bytes one after the other and fails with
the first content that two bytes cannot count. `Field.read` takes a field off the
front. Having nothing left is not the same as being cut short: the end of the
stream is told apart from a truncation.
-/

namespace LoraRelay

/-- Why a field cannot be written or read. -/
inductive FieldError where
  /-- All fields have been read. -/
  | endOfStream
  /-- The length or the content is cut short. -/
  | truncated (expected actual : Nat)
  /-- The content is longer than 65535 bytes. -/
  | tooLong (length : Nat)
  deriving DecidableEq

namespace FieldError

/-- The wording of an error. -/
def message : FieldError → String
  | endOfStream => "end of stream"
  | truncated expected actual => s!"truncated field: need {expected} bytes, got {actual}"
  | tooLong length => s!"field of {length} bytes exceeds the 16-bit length prefix"

end FieldError

/-! ### Writing -/

namespace Field

/-- How many bytes a field holds at most. -/
def maxLength : Nat := 65535

/-- The length in front of a content of `n` bytes. -/
def lengthBytes (n : Nat) : Bytes := [UInt8.ofNat (n / 256), UInt8.ofNat n]

/-- A content with its length in front. -/
def encode (content : Bytes) : Except FieldError Bytes :=
  if maxLength < content.length then .error (.tooLong content.length)
  else .ok (lengthBytes content.length ++ content)

end Field

/-- A part of a packet. -/
inductive Piece where
  /-- A field. -/
  | field (content : Bytes)
  /-- Bytes without a length. -/
  | raw (bytes : Bytes)
  deriving DecidableEq

namespace Piece

/-- The bytes of a part. -/
def encode : Piece → Except FieldError Bytes
  | field content => Field.encode content
  | raw bytes => .ok bytes

/-- The bytes of parts that follow each other. -/
def encodeAll : List Piece → Except FieldError Bytes
  | [] => .ok []
  | p :: ps => do
    let bytes ← p.encode
    let rest ← encodeAll ps
    return bytes ++ rest

end Piece

/-! ### Reading -/

namespace Field

/-- The content of the first field, and the bytes after it. -/
def read : Bytes → Except FieldError (Bytes × Bytes)
  | [] => .error .endOfStream
  | [_] => .error (.truncated 2 1)
  | hi :: lo :: rest =>
    let length := 256 * hi.toNat + lo.toNat
    if rest.length < length then .error (.truncated length rest.length)
    else .ok (rest.take length, rest.drop length)

/-- What is left after an attempt to read a field. A failed one takes nothing. -/
def afterRead (bytes : Bytes) : Bytes :=
  match read bytes with
  | .ok (_, rest) => rest
  | .error _ => bytes

theorem read_encode {content bytes : Bytes} (h : encode content = .ok bytes) (rest : Bytes) :
    read (bytes ++ rest) = .ok (content, rest) := by
  unfold encode at h
  split at h
  · cases h
  · rename_i hlen
    cases h
    have hn : 256 * (UInt8.ofNat (content.length / 256)).toNat +
        (UInt8.ofNat content.length).toNat = content.length := by
      simp only [maxLength] at hlen
      simp
      omega
    simp only [lengthBytes, List.cons_append, List.nil_append, read, hn]
    simp

theorem length_of_read {bytes content rest : Bytes} (h : read bytes = .ok (content, rest)) :
    bytes.length = 2 + content.length + rest.length := by
  unfold read at h
  split at h
  · cases h
  · cases h
  · simp only at h
    split at h
    · cases h
    · cases h
      simp
      omega

end Field

end LoraRelay
