import LoraRelay.Frame.Basic
import LoraRelay.Packet.Carrier
import LoraRelay.Record

/-!
# Join packets

A request to join as the network passes it on: identifiers and the nonce of the
device, which is what is carried. Metadata stay where they are; a decoded packet has
none.
-/

namespace LoraRelay

/-- A request to join. -/
structure JoinPacket where
  /-- The application. -/
  appEui : Eui
  /-- The device. -/
  devEui : Eui
  /-- A number that the device has not used before. -/
  devNonce : Octets 2
  /-- What is known about the frame. -/
  metadata : Metadata
  deriving DecidableEq

namespace JoinPacket

/-- The packet of a frame that carries a request to join, and what is known about
it. -/
def ofFrame (f : Frame) (metadata : Metadata) : Except PacketError JoinPacket :=
  match f.payload with
  | some (.joinRequest r) => .ok ⟨r.appEui, r.devEui, r.devNonce, metadata⟩
  | _ => .error .notJoinRequest

/-- The identifiers, and the nonce as what they carry. -/
def carrier (p : JoinPacket) : Carrier := ⟨p.appEui, p.devEui, p.devNonce.toList⟩

/-- The bytes of a packet. -/
def encode (p : JoinPacket) : Except PacketError Bytes := Piece.assemble p.carrier.pieces

/-- The packet with given bytes. -/
def decode (bytes : Bytes) : Except PacketError JoinPacket := do
  let (carrier, bytes) ← Carrier.decode bytes
  Field.finish .join bytes
  match Octets.ofList? 2 carrier.payload with
  | some devNonce => return ⟨carrier.appEui, carrier.devEui, devNonce, .empty⟩
  | none => throw (.nonceLength carrier.payload.length)

/-- The packet as it is shown to people. -/
def text (p : JoinPacket) : String :=
  "JoinPacket " ++ Record.braces (Record.join
    (p.carrier.identifierTexts ++ ["DevNonce: " ++ hex p.devNonce.toList, p.metadata.text]))

end JoinPacket

end LoraRelay
