import LoraRelay.Packet.Router

/-!
# Broker packets

A broker cares for application data only: a broker packet is a router packet whose
frame holds exactly one block of data, sent to an application port.
-/

namespace LoraRelay

/-- A router packet with one block of application data. -/
structure BrokerPacket where
  /-- The router packet. -/
  router : RouterPacket
  deriving DecidableEq

namespace BrokerPacket

/-- The broker packet of a router packet, if it has one block of data for an
application. -/
def ofRouter (p : RouterPacket) : Except PacketError BrokerPacket :=
  match p.payload.items with
  | [.data bytes] =>
    if bytes = [] then .error .emptyDataItem
    else
      match p.payload.port with
      | some port => if port = 0 then .error .noApplicationPort else .ok ⟨p⟩
      | none => .error .noApplicationPort
  | [.command _] => .error .notDataItem
  | _ => .error .notOneItem

/-- The packet of a frame and what is known about it. -/
def ofFrame (f : Frame) (metadata : Metadata) : Except PacketError BrokerPacket := do
  ofRouter (← RouterPacket.ofFrame f metadata)

theorem router_of_ofRouter {p : RouterPacket} {b : BrokerPacket} (h : ofRouter p = .ok b) :
    b.router = p := by
  unfold ofRouter at h
  split at h
  · split at h
    · cases h
    · split at h
      · split at h
        · cases h
        · cases h
          rfl
      · cases h
  · cases h
  · cases h

/-! ### The parts -/

/-- The frame counter. -/
def counter (b : BrokerPacket) : UInt32 := b.router.payload.header.counter

/-- The commands in the frame header. -/
def commands (b : BrokerPacket) : List Command := b.router.payload.header.options

/-- The application data. -/
def payload (b : BrokerPacket) : Bytes :=
  match b.router.payload.items with
  | .data bytes :: _ => bytes
  | _ => []

/-- The device that sends or gets the frame, known by its address. -/
def devEui (b : BrokerPacket) : Eui := b.router.devEui

/-- What is known about the frame. -/
def metadata (b : BrokerPacket) : Metadata := b.router.metadata

/-- Whether the frame has the right integrity code. -/
def validateMic (b : BrokerPacket) (key : Key) : Except PacketError Bool :=
  (b.router.frame.validateMic key).mapError .noMic

/-! ### The codec -/

/-- The bytes of a packet, which are those of the router packet. -/
def encode (b : BrokerPacket) : Except PacketError Bytes := b.router.encode

/-- The packet with given bytes. -/
def decode (bytes : Bytes) : Except PacketError BrokerPacket := do
  ofRouter (← RouterPacket.decode bytes)

/-- The packet as it is shown to people. -/
def text (b : BrokerPacket) : String :=
  "BPacket \x7b\n\tFCnt: " ++ toString b.counter.toNat ++ "\n\tCommands: " ++
    Record.list (b.commands.map Command.text) ++ "\n\t" ++ b.router.text ++ "\n\x7d"

end BrokerPacket

end LoraRelay
