import LoraRelay.Device
import LoraRelay.Packet.Parts

/-!
# The carrier of identifiers

Handler, join and accept packets start with the same three fields: the identifiers
of the application and of the device, and a payload.
-/

namespace LoraRelay

/-- Identifiers and a payload. -/
structure Carrier where
  /-- The application. -/
  appEui : Eui
  /-- The device. -/
  devEui : Eui
  /-- What is carried. -/
  payload : Bytes
  deriving DecidableEq

namespace Carrier

/-- The three fields. -/
def pieces (c : Carrier) : List Piece :=
  [.field c.appEui.bytes.toList, .field c.devEui.bytes.toList, .field c.payload]

/-- The three fields at the front, and the bytes after them. -/
def decode (bytes : Bytes) : Except PacketError (Carrier × Bytes) := do
  let (appEui, bytes) ← Field.sized 8 "appEUI" bytes
  let (devEui, bytes) ← Field.sized 8 "devEUI" bytes
  let (payload, bytes) ← Field.required "payload" bytes
  return (⟨⟨appEui⟩, ⟨devEui⟩, payload⟩, bytes)

/-- The identifiers as they are shown to people, with their names. -/
def identifierTexts (c : Carrier) : List String :=
  ["AppEUI: " ++ c.appEui.text, "DevEUI: " ++ c.devEui.text]

end Carrier

end LoraRelay
