import LoraRelay.Frame.Basic
import LoraRelay.Packet.Carrier
import LoraRelay.Record

/-!
# Accept packets

The answer to a request to join on its way back: identifiers, the encoded frame for
the device, and the network session key, which stays with the network. On the wire
the key follows the fields as 16 bytes without a length.
-/

namespace LoraRelay

/-- The answer to a request to join. -/
structure AcceptPacket where
  /-- Identifiers and the encoded frame. -/
  carrier : Carrier
  /-- The network session key. -/
  sessionKey : Key
  deriving DecidableEq

namespace AcceptPacket

/-- The packet that carries something, which must not be empty. -/
def make (carrier : Carrier) (sessionKey : Key) : Except PacketError AcceptPacket :=
  if carrier.payload = [] then .error .emptyAcceptPayload else .ok ⟨carrier, sessionKey⟩

/-- The packet of a join-accept frame. -/
def ofFrame (f : Frame) (appEui devEui : Eui) (sessionKey : Key) :
    Except PacketError AcceptPacket :=
  if f.messageType = .joinAccept then do
    let bytes ← f.encode.mapError .unwritableJoinAccept
    make ⟨appEui, devEui, bytes⟩ sessionKey
  else .error .notJoinAccept

/-- The bytes of a packet. -/
def encode (p : AcceptPacket) : Except PacketError Bytes :=
  Piece.assemble (p.carrier.pieces ++ [.raw p.sessionKey.bytes.toList])

/-- The packet with given bytes. -/
def decode (bytes : Bytes) : Except PacketError AcceptPacket := do
  let (carrier, bytes) ← Carrier.decode bytes
  match Octets.ofList? 16 bytes with
  | some key => make carrier ⟨key⟩
  | none => throw (.keyLength bytes.length)

/-- The packet as it is shown to people, without the key. -/
def text (p : AcceptPacket) : String :=
  "AcceptPacket " ++ Record.braces (Record.join
    (p.carrier.identifierTexts ++ ["Payload: " ++ hex p.carrier.payload]))

end AcceptPacket

end LoraRelay
