import LoraRelay.Frame.Data
import LoraRelay.Frame.Join
import LoraRelay.Frame.MessageType

/-!
# The payload of a frame

What stands between the first byte of a frame and its integrity code. The message
type decides how it is read; how it is written is decided by what it is.
-/

namespace LoraRelay

/-- The payload of a frame. -/
inductive Payload where
  /-- A data frame: header, port and what is sent to it. -/
  | data (p : DataPayload)
  /-- A request to join. -/
  | joinRequest (r : JoinRequest)
  /-- The answer to it. -/
  | joinAccept (a : JoinAccept)
  /-- Bytes in a format of their own. -/
  | proprietary (bytes : Bytes)
  deriving DecidableEq

namespace Payload

/-- The data payload, if it is one. -/
def data? : Payload → Option DataPayload
  | data p => some p
  | _ => none

/-- The payload of a message. A data payload takes its direction from the message
type, which must have one. -/
def encode (m : MessageType) : Payload → Except FrameError Bytes
  | data p =>
    match m.direction? with
    | some d => p.encode d
    | none => .error (.unsupportedType m.header)
  | joinRequest r => .ok r.encode
  | joinAccept a => .ok a.encode
  | proprietary bytes => .ok bytes

/-- The payload in a message, its commands being read in direction `d`. -/
def decode (m : MessageType) (d : Direction) (bytes : Bytes) : Except FrameError Payload :=
  match m with
  | .joinRequest => (JoinRequest.decode bytes).map joinRequest
  | .joinAccept => (JoinAccept.decode bytes).map joinAccept
  | .unconfirmedDataUp | .unconfirmedDataDown | .confirmedDataUp | .confirmedDataDown =>
    (DataPayload.decode d bytes).map data
  | .proprietary => .ok (proprietary bytes)
  | .rejoinRequest => .error (.unsupportedType m.header)

end Payload

end LoraRelay
