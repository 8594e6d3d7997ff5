import LoraRelay.Frame.Text
import LoraRelay.Packet.Parts

/-!
# Router packets

A gateway sends a data frame to the router with what it knows about it; the router
sends one back the same way. On the wire there are three fields: the direction, the
metadata and the frame.

## The model

A packet holds the parts of a frame whose payload is data. `RouterPacket.ofFrame`
lets a frame through if it would come out of the packet as it went in: a data frame
must be one that can be sent, a join message must not hold data, and the counter must
fit its 16 bits. Messages without a direction are let through, and refused when the
packet is encoded.
-/

namespace LoraRelay

/-- A data frame and what is known about it. -/
structure RouterPacket where
  /-- What kind of message the frame is. -/
  messageType : MessageType
  /-- The payload of the frame. -/
  payload : DataPayload
  /-- The integrity code of the frame. -/
  mic : Mic
  /-- What is known about the frame. -/
  metadata : Metadata
  deriving DecidableEq

namespace RouterPacket

/-! ### Frames -/

/-- A data frame must be one that can be sent. -/
def checkSendable (f : Frame) : Except PacketError Unit :=
  if f.messageType.isData then (f.encode.mapError .unsendableFrame).map fun _ => ()
  else .ok ()

/-- The parts of a frame and what is known about it. -/
def ofParts (f : Frame) (metadata : Metadata) : Except PacketError RouterPacket :=
  match f.payload with
  | none => .error .missingPayload
  | some (.data p) =>
    if f.messageType.isJoin then .error (.dataUnderJoin f.messageType)
    else if 65535 < p.header.counter then .error (.counterOverflow p.header.counter)
    else .ok ⟨f.messageType, p, f.mic, metadata⟩
  | some _ => .error .notData

/-- The packet of a frame and what is known about it. -/
def ofFrame (f : Frame) (metadata : Metadata) : Except PacketError RouterPacket := do
  checkSendable f
  ofParts f metadata

/-- The frame of a packet. -/
def frame (p : RouterPacket) : Frame := ⟨p.messageType, some (.data p.payload), p.mic⟩

/-- The device that sends or gets the frame, known by its address. -/
def devEui (p : RouterPacket) : Eui := .ofDevAddr p.payload.header.address

theorem frame_of_ofParts {f : Frame} {metadata : Metadata} {p : RouterPacket}
    (h : ofParts f metadata = .ok p) : p.frame = f ∧ p.metadata = metadata := by
  obtain ⟨messageType, payload, mic⟩ := f
  unfold ofParts at h
  split at h
  · cases h
  · rename_i hp
    simp only at hp
    subst hp
    split at h
    · cases h
    · split at h
      · cases h
      · cases h
        exact ⟨rfl, rfl⟩
  · cases h

theorem frame_of_ofFrame {f : Frame} {metadata : Metadata} {p : RouterPacket}
    (h : ofFrame f metadata = .ok p) : p.frame = f ∧ p.metadata = metadata := by
  apply frame_of_ofParts
  cases hc : checkSendable f with
  | error e =>
    simp [ofFrame, hc, bind, Except.bind] at h
  | ok =>
    simpa [ofFrame, hc, bind, Except.bind] using h

/-! ### The codec -/

/-- The direction of a message type that has one. -/
def directionOf (m : MessageType) : Except PacketError Direction :=
  match m.direction? with
  | some d => .ok d
  | none => .error (.noDirection m)

/-- The direction with a given tag. -/
def directionOfTag (tag : UInt8) : Except PacketError Direction :=
  match Direction.ofTag? tag with
  | some d => .ok d
  | none => .error (.invalidTag tag)

/-- The bytes of a packet. -/
def encode (p : RouterPacket) : Except PacketError Bytes := do
  let direction ← directionOf p.messageType
  let metadata ← p.metadata.encode
  let frame ← p.frame.encode.mapError .unwritableFrame
  Piece.assemble [.field [direction.tag], .field metadata, .field frame]

/-- The packet with given bytes. -/
def decode (bytes : Bytes) : Except PacketError RouterPacket := do
  let (tag, bytes) ← Field.sized 1 "direction" bytes
  let (metadata, bytes) ← Field.required "metadata" bytes
  let (frame, bytes) ← Field.required "frame" bytes
  Field.finish .router bytes
  let direction ← directionOfTag tag.byte
  let metadata ← Metadata.decode metadata
  let frame ← (Frame.decode direction frame).mapError .unreadableFrame
  ofFrame frame metadata

/-- The packet as it is shown to people. -/
def text (p : RouterPacket) : String :=
  "RPacket \x7b\n\t" ++ p.metadata.text ++ "\n\tDevEUI: " ++ p.devEui.text ++ "\n\tPayload: " ++
    p.frame.text ++ "\n\x7d"

end RouterPacket

end LoraRelay
