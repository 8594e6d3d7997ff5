import LoraRelay.Packet.Accept
import LoraRelay.Packet.Application
import LoraRelay.Packet.Join

/-!
# Packets

What travels between the tiers of the network: to the router, within the broker, to
a handler, to an application, and the two packets of the join procedure. Bytes do
not tell their kind, so a decoder is told it.
-/

namespace LoraRelay

/-- A packet of one of the six kinds. -/
inductive Packet where
  /-- A router packet. -/
  | router (p : RouterPacket)
  /-- A broker packet. -/
  | broker (p : BrokerPacket)
  /-- A handler packet. -/
  | handler (p : HandlerPacket)
  /-- An application packet. -/
  | application (p : ApplicationPacket)
  /-- A join packet. -/
  | join (p : JoinPacket)
  /-- An accept packet. -/
  | accept (p : AcceptPacket)
  deriving DecidableEq

namespace Packet

/-- The kind of a packet. -/
def kind : Packet → PacketKind
  | router _ => .router
  | broker _ => .broker
  | handler _ => .handler
  | application _ => .application
  | join _ => .join
  | accept _ => .accept

/-- The bytes of a packet. -/
def encode : Packet → Except PacketError Bytes
  | router p => p.encode
  | broker p => p.encode
  | handler p => p.encode
  | application p => p.encode
  | join p => p.encode
  | accept p => p.encode

/-- The packet of a given kind with given bytes. -/
def decode (bytes : Bytes) : PacketKind → Except PacketError Packet
  | .router => (RouterPacket.decode bytes).map router
  | .broker => (BrokerPacket.decode bytes).map broker
  | .handler => (HandlerPacket.decode bytes).map handler
  | .application => (ApplicationPacket.decode bytes).map application
  | .join => (JoinPacket.decode bytes).map join
  | .accept => (AcceptPacket.decode bytes).map accept

/-- The packet as it is shown to people. -/
def text : Packet → String
  | router p => p.text
  | broker p => p.text
  | handler p => p.text
  | application p => p.text
  | join p => p.text
  | accept p => p.text

end Packet

end LoraRelay
