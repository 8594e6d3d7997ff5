import LoraRelay.Metadata.Reader
import LoraRelay.Metadata.Writer
import LoraRelay.Packet.Error

/-!
# The parts of a packet

A packet is written as fields, of which some have a fixed length and some hold
metadata. Reading it takes the fields off one by one; each has a name, which an
error tells.
-/

namespace LoraRelay

/-! ### Metadata -/

namespace Metadata

/-- The metadata as a field. All numbers must be finite. -/
def encode (m : Metadata) : Except PacketError Bytes :=
  match m.notFinite? with
  | some key => .error (.notFinite key)
  | none => .ok m.write

/-- The metadata in a field. -/
def decode (bytes : Bytes) : Except PacketError Metadata :=
  match read? bytes with
  | some m => .ok m
  | none => .error .unreadableMetadata

end Metadata

/-! ### Fields -/

/-- The bytes of a packet with given parts. -/
def Piece.assemble (ps : List Piece) : Except PacketError Bytes :=
  (encodeAll ps).mapError .unwritableField

namespace Field

/-- The content of a field that must be there, and the bytes after it. -/
def required (name : String) (bytes : Bytes) : Except PacketError (Bytes × Bytes) :=
  (read bytes).mapError (.unreadableField name)

/-- The content of a field that must have `n` bytes, and the bytes after it. -/
def sized (n : Nat) (name : String) (bytes : Bytes) : Except PacketError (Octets n × Bytes) := do
  let (content, rest) ← required name bytes
  match Octets.ofList? n content with
  | some a => return (a, rest)
  | none => throw (.fieldLength name n content.length)

/-- Nothing must be left after the last field. -/
def finish (kind : PacketKind) (rest : Bytes) : Except PacketError Unit :=
  if rest = [] then .ok () else .error (.trailingBytes kind)

end Field

/-! ### Reading step by step -/

/-- A step of a reader. -/
inductive ReadStep where
  /-- Read a field. -/
  | field
  /-- Read a field that must be there. -/
  | required (name : String)
  /-- Read a field that must have a given length. -/
  | sized (n : Nat) (name : String)
  deriving DecidableEq

/-- What a step came to. -/
inductive ReadResult where
  /-- The content of a field. -/
  | content (bytes : Bytes)
  /-- No field. -/
  | noField (e : FieldError)
  /-- Not the field that must be there. -/
  | refused (e : PacketError)
  deriving DecidableEq

/-- What a step comes to. -/
def ReadStep.result (bytes : Bytes) : ReadStep → ReadResult
  | field =>
    match Field.read bytes with
    | .ok (content, _) => .content content
    | .error e => .noField e
  | required name =>
    match Field.required name bytes with
    | .ok (content, _) => .content content
    | .error e => .refused e
  | sized n name =>
    match Field.sized n name bytes with
    | .ok (content, _) => .content content.toList
    | .error e => .refused e

/-- What steps come to, each with the bytes left after it. A field of the wrong
length has been taken off nevertheless. -/
def ReadStep.runAll (bytes : Bytes) : List ReadStep → List (ReadResult × Bytes)
  | [] => []
  | step :: steps =>
    (step.result bytes, Field.afterRead bytes) :: runAll (Field.afterRead bytes) steps

end LoraRelay
