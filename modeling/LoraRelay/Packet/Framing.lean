import LoraRelay.Packet.Parts

/-!
# Writers and readers that are kept

A packet is written call by call and read step by step, and what has been written, or what is
left to read, is kept in between.

## The model

A call of a writer is a `Piece`: a field, or bytes without a length. `FieldWriter.add` is one
call and `FieldWriter.run` are calls one after the other, on a writer with a buffer and the
first error, which is told when the writing is finished. A reader works on the bytes that are
left, which are a state: nothing but the reading of a field changes it, and an error comes with
the state that it was found in. `FieldReader.runAll` takes steps one after the other, also
after one that failed.
-/

namespace LoraRelay

/-! ### Writing -/

/-- A writer of fields. -/
structure FieldWriter where
  /-- What has been written. -/
  buffer : Bytes
  /-- What went wrong first, if something did. -/
  failed : Option FieldError

namespace FieldWriter

/-- A writer that has written nothing. -/
def empty : FieldWriter := ⟨[], none⟩

/-- Writes a field, or remembers that its content is too long. -/
def write (w : FieldWriter) (content : Bytes) : FieldWriter :=
  if w.failed.isSome then w
  else if Field.maxLength < content.length then { w with failed := some (.tooLong content.length) }
  else { w with buffer := w.buffer ++ Field.lengthBytes content.length ++ content }

/-- Writes bytes without a length. -/
def writeRaw (w : FieldWriter) (bytes : Bytes) : FieldWriter :=
  if w.failed.isNone then { w with buffer := w.buffer ++ bytes } else w

/-- What was written, unless something went wrong. -/
def finish (w : FieldWriter) : Except PacketError Bytes :=
  match w.failed with
  | some e => .error (.unwritableField e)
  | none => .ok w.buffer

/-- One call. -/
def add (w : FieldWriter) : Piece → FieldWriter
  | .field content => w.write content
  | .raw bytes => w.writeRaw bytes

/-- Calls one after the other. -/
def run (w : FieldWriter) (calls : List Piece) : FieldWriter := calls.foldl add w

end FieldWriter

/-! ### Reading -/

namespace FieldReader

/-- Takes the next field off the bytes that are left. -/
def read : EStateM FieldError Bytes Bytes := do
  let (content, rest) ← MonadExcept.ofExcept (Field.read (← get))
  set rest
  return content

/-- Takes off a field that must be there. -/
def required (name : String) : EStateM PacketError Bytes Bytes :=
  EStateM.adaptExcept (.unreadableField name) read

/-- Takes off a field that must have `n` bytes. -/
def sized (n : Nat) (name : String) : EStateM PacketError Bytes (Octets n) := do
  let content ← required name
  match Octets.ofList? n content with
  | some a => return a
  | none => throw (.fieldLength name n content.length)

/-- What an operation came to, and what it left. -/
def outcome {ε α : Type} (ok : α → ReadResult) (error : ε → ReadResult) :
    EStateM.Result ε Bytes α → ReadResult × Bytes
  | .ok a left => (ok a, left)
  | .error e left => (error e, left)

/-- What a step comes to, and what it leaves. -/
def perform (bytes : Bytes) : ReadStep → ReadResult × Bytes
  | .field => outcome .content .noField (read.run bytes)
  | .required name => outcome .content .refused ((required name).run bytes)
  | .sized n name => outcome (fun a => .content a.toList) .refused ((sized n name).run bytes)

/-- What steps come to, each with what it leaves to the next. -/
def runAll (bytes : Bytes) : List ReadStep → List (ReadResult × Bytes)
  | [] => []
  | step :: steps => perform bytes step :: runAll (perform bytes step).2 steps

end FieldReader

end LoraRelay
