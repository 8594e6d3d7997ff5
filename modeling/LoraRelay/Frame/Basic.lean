import LoraRelay.Frame.Payload
import LoraRelay.Mic

/-!
# Frames

A frame of the radio: a byte with the message type, a payload and a four-byte
integrity code, at most 255 bytes in all.

## The model

`Frame.encode` and `Frame.decode` are the two sides of the format. A decoder is
told the direction, since the message type may have none and since a frame may
be read against its type. The code covers `Frame.signed`, everything before it,
which for data is preceded by a block that holds the rest of the frame counter
(`Frame.cmacInput`). `Frame.sign` gives the frame with its code; `Frame.setMic` puts the
code into a frame that is kept, which is a state here.
-/

namespace LoraRelay

/-- A frame of the radio. The major version is always R1. -/
structure Frame where
  /-- What kind of message it is. -/
  messageType : MessageType
  /-- The payload, once there is one. -/
  payload : Option Payload
  /-- The integrity code. -/
  mic : Mic
  deriving DecidableEq

namespace Frame

/-- How many bytes a frame takes at most. -/
def maxLength : Nat := 255

/-- The direction that the message type fixes. -/
def direction? (f : Frame) : Option Direction := f.messageType.direction?

/-- The data payload, if the frame carries one. -/
def data? (f : Frame) : Option DataPayload := f.payload.bind Payload.data?

/-! ### The codec -/

/-- The payload as bytes, of which there are none without a payload. -/
def encodePayload (f : Frame) : Except FrameError Bytes :=
  match f.payload with
  | none => .ok []
  | some p => p.encode f.messageType

/-- Everything but the integrity code. -/
def signed (f : Frame) : Except FrameError Bytes := do
  let bytes := f.messageType.header :: (← f.encodePayload)
  if maxLength < bytes.length + 4 then throw (.frameTooLong (bytes.length + 4))
  return bytes

/-- The frame as sent over the air. -/
def encode (f : Frame) : Except FrameError Bytes := do
  return (← f.signed) ++ f.mic.toList

/-- The frame sent over the air as these bytes, its commands being read in direction
`d`. -/
def decode (d : Direction) (bytes : Bytes) : Except FrameError Frame :=
  match bytes with
  | [] => .error (.tooShort 5 0)
  | header :: rest =>
    match Octets.splitLast? 4 rest with
    | none => .error (.tooShort 5 bytes.length)
    | some (body, mic) => do
      if maxLength < bytes.length then throw (.frameTooLong bytes.length)
      let messageType ← MessageType.ofHeader header
      let payload ← Payload.decode messageType d body
      return { messageType, payload := some payload, mic }

/-! ### Integrity -/

/-- What is put under the CMAC for the integrity code. -/
def cmacInput (f : Frame) : Except FrameError Bytes := do
  let message ← f.signed
  match f.payload with
  | none => throw .missingPayload
  | some (.data p) =>
    match f.direction? with
    | some d => return Mic.dataInput d p.header.address p.header.counter message
    | none => throw (.unsupportedType f.messageType.header)
  | some (.joinRequest _) | some (.joinAccept _) => return message
  | some (.proprietary _) => throw (.unsupportedType f.messageType.header)

/-- The integrity code of the frame as it is now. -/
def computeMic (f : Frame) (key : Key) : Except FrameError Mic := do
  return Mic.ofMessage key (← f.cmacInput)

/-- The frame with its integrity code set. -/
def sign (f : Frame) (key : Key) : Except FrameError Frame := do
  return { f with mic := ← f.computeMic key }

/-- Sets the integrity code of the frame that is kept, and leaves everything else of it. -/
def setMic (key : Key) : EStateM FrameError Frame Unit := do
  let mic ← MonadExcept.ofExcept ((← get).computeMic key)
  modify fun f => { f with mic }

theorem run_setMic_of_ok {f : Frame} {key : Key} {code : Mic} (h : f.computeMic key = .ok code) :
    (setMic key).run f = .ok () { f with mic := code } := by
  show EStateM.bind (MonadExcept.ofExcept (f.computeMic key)) _ f = _
  rw [h]
  rfl

theorem run_setMic_of_error {f : Frame} {key : Key} {e : FrameError}
    (h : f.computeMic key = .error e) : (setMic key).run f = .error e f := by
  show EStateM.bind (MonadExcept.ofExcept (f.computeMic key)) _ f = _
  rw [h]
  rfl

/-- Whether the frame has the right integrity code. -/
def validateMic (f : Frame) (key : Key) : Except FrameError Bool := do
  return (← f.computeMic key) = f.mic

end Frame

end LoraRelay
