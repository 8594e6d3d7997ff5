import LoraRelay.Packet.Broker
import LoraRelay.Packet.Carrier

/-!
# Handler packets

A broker hands application data on to a handler without the frame: identifiers, the
data, and what is known about the frame. There is nothing to check, and the data may
be empty.
-/

namespace LoraRelay

/-- Application data without a frame. -/
structure HandlerPacket where
  /-- Identifiers and data. -/
  carrier : Carrier
  /-- What is known about the frame. -/
  metadata : Metadata
  deriving DecidableEq

namespace HandlerPacket

/-- The packet for an application with what a broker packet holds. -/
def ofBroker (appEui : Eui) (b : BrokerPacket) : HandlerPacket :=
  ⟨⟨appEui, b.devEui, b.payload⟩, b.metadata⟩

/-- The bytes of a packet. -/
def encode (p : HandlerPacket) : Except PacketError Bytes := do
  let metadata ← p.metadata.encode
  Piece.assemble (p.carrier.pieces ++ [.field metadata])

/-- The packet with given bytes. -/
def decode (bytes : Bytes) : Except PacketError HandlerPacket := do
  let (carrier, bytes) ← Carrier.decode bytes
  let (metadata, bytes) ← Field.required "metadata" bytes
  let metadata ← Metadata.decode metadata
  Field.finish .handler bytes
  return ⟨carrier, metadata⟩

/-- The packet as it is shown to people. -/
def text (p : HandlerPacket) : String :=
  "HPacket " ++ Record.braces (Record.join
    (p.carrier.identifierTexts ++ ["Payload: " ++ hex p.carrier.payload, p.metadata.text]))

end HandlerPacket

end LoraRelay
