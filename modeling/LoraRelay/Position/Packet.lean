import LoraRelay.Packet.Basic
import LoraRelay.Position.Reading
import LoraRelay.Position.Writing

/-!
# Reading packets by position

The readers of the six kinds of packets, with the length of a field looked up at two
positions and its content cut off, the tag taken from its field, the frame read by
position and written again, and the only element of a data frame looked up.
-/

namespace LoraRelay

open Positional

/-! ### Fields -/

namespace Field

/-- The content of the first field, and the bytes after it. -/
def readAt (bytes : Bytes) : Positional FieldError (Bytes × Bytes) :=
  if bytes = [] then throw .endOfStream
  else if bytes.length < 2 then throw (.truncated 2 bytes.length)
  else do
    let length := 256 * (← look bytes 0).toNat + (← look bytes 1).toNat
    let body ← slice bytes 2 bytes.length
    if body.length < length then throw (.truncated length body.length)
    else cut body length

theorem length_of_readAt {bytes content rest : Bytes}
    (h : readAt bytes = inside (.ok (content, rest))) : rest.length < bytes.length := by
  unfold readAt at h
  split at h
  · cases h
  · split at h
    · cases h
    · obtain ⟨_, -, h⟩ := bind_eq_inside_ok_iff.1 h
      obtain ⟨_, -, h⟩ := bind_eq_inside_ok_iff.1 h
      obtain ⟨body, hbody, h⟩ := bind_eq_inside_ok_iff.1 h
      split at h
      · cases h
      · have hlength := length_of_slice hbody
        rw [← append_of_cut h, List.length_append] at hlength
        omega

/-- The content of a field that must be there, and the bytes after it. -/
def requiredAt (name : String) (bytes : Bytes) : Positional PacketError (Bytes × Bytes) :=
  (readAt bytes).adapt (.unreadableField name)

/-- The content of a field that must have `n` bytes, and the bytes after it. -/
def sizedAt (n : Nat) (name : String) (bytes : Bytes) :
    Positional PacketError (Octets n × Bytes) := do
  let (content, rest) ← requiredAt name bytes
  match Octets.ofList? n content with
  | some a => return (a, rest)
  | none => throw (.fieldLength name n content.length)

end Field

/-- The three fields of a carrier, and the bytes after them. -/
def Carrier.decodeAt (bytes : Bytes) : Positional PacketError (Carrier × Bytes) := do
  let (appEui, bytes) ← Field.sizedAt 8 "appEUI" bytes
  let (devEui, bytes) ← Field.sizedAt 8 "devEUI" bytes
  let (payload, bytes) ← Field.requiredAt "payload" bytes
  return (⟨⟨appEui⟩, ⟨devEui⟩, payload⟩, bytes)

/-! ### Router and broker packets -/

namespace RouterPacket

/-- A data frame must be one that can be sent. -/
def checkSendableAt (f : Frame) : Positional PacketError Unit :=
  if f.messageType.isData then (fun _ => ()) <$> f.encodeAt.adapt .unsendableFrame
  else return ()

/-- The packet of a frame and what is known about it. -/
def ofFrameAt (f : Frame) (metadata : Metadata) : Positional PacketError RouterPacket := do
  checkSendableAt f
  inside (ofParts f metadata)

/-- The packet with given bytes. -/
def decodeAt (bytes : Bytes) : Positional PacketError RouterPacket := do
  let (tag, bytes) ← Field.sizedAt 1 "direction" bytes
  let (metadata, bytes) ← Field.requiredAt "metadata" bytes
  let (frame, bytes) ← Field.requiredAt "frame" bytes
  inside (Field.finish .router bytes)
  let direction ← inside (directionOfTag (← look tag.toList 0))
  let metadata ← inside (Metadata.decode metadata)
  let frame ← (Frame.decodeAt direction frame).adapt .unreadableFrame
  ofFrameAt frame metadata

end RouterPacket

namespace BrokerPacket

/-- The broker packet of a router packet. -/
def ofRouterAt (p : RouterPacket) : Positional PacketError BrokerPacket :=
  if p.payload.items.length ≠ 1 then throw .notOneItem
  else do
    match ← look p.payload.items 0 with
    | .command _ => throw .notDataItem
    | .data bytes =>
      if bytes = [] then throw .emptyDataItem
      else
        match p.payload.port with
        | some port => if port = 0 then throw .noApplicationPort else return ⟨p⟩
        | none => throw .noApplicationPort

/-- The packet with given bytes. -/
def decodeAt (bytes : Bytes) : Positional PacketError BrokerPacket := do
  ofRouterAt (← RouterPacket.decodeAt bytes)

end BrokerPacket

/-! ### The other packets -/

/-- The packet with given bytes. -/
def HandlerPacket.decodeAt (bytes : Bytes) : Positional PacketError HandlerPacket := do
  let (carrier, bytes) ← Carrier.decodeAt bytes
  let (metadata, bytes) ← Field.requiredAt "metadata" bytes
  let metadata ← inside (Metadata.decode metadata)
  inside (Field.finish .handler bytes)
  return ⟨carrier, metadata⟩

namespace ApplicationPacket

/-- The entries with given bytes, which end where a field ends. -/
def decodeEntriesAt (bytes : Bytes) : Positional PacketError (List Metadata) :=
  match _h : Field.readAt bytes with
  | none => outside
  | some (.error .endOfStream) => return []
  | some (.error e) => throw (.unreadableEntry e)
  | some (.ok (content, rest)) => do
    let m ← inside (Metadata.decode content)
    let ms ← decodeEntriesAt rest
    return m :: ms
termination_by bytes.length
decreasing_by
  have := Field.length_of_readAt _h
  omega

/-- The packet with given bytes. -/
def decodeAt (bytes : Bytes) : Positional PacketError ApplicationPacket := do
  let (payload, bytes) ← Field.requiredAt "payload" bytes
  let (entries, bytes) ← Field.requiredAt "metadata" bytes
  inside (Field.finish .application bytes)
  let metadata ← decodeEntriesAt entries
  inside (make payload metadata)

end ApplicationPacket

/-- The packet with given bytes. -/
def JoinPacket.decodeAt (bytes : Bytes) : Positional PacketError JoinPacket := do
  let (carrier, bytes) ← Carrier.decodeAt bytes
  inside (Field.finish .join bytes)
  if carrier.payload.length ≠ 2 then throw (.nonceLength carrier.payload.length)
  else do
    let devNonce ← copy 2 carrier.payload
    return ⟨carrier.appEui, carrier.devEui, devNonce, .empty⟩

/-- The packet with given bytes. -/
def AcceptPacket.decodeAt (bytes : Bytes) : Positional PacketError AcceptPacket := do
  let (carrier, bytes) ← Carrier.decodeAt bytes
  inside (match Octets.ofList? 16 bytes with
    | some key => make carrier ⟨key⟩
    | none => throw (.keyLength bytes.length))

/-! ### All kinds -/

namespace Packet

/-- The packet of a given kind with given bytes. -/
def decodeAt (bytes : Bytes) : PacketKind → Positional PacketError Packet
  | .router => router <$> RouterPacket.decodeAt bytes
  | .broker => broker <$> BrokerPacket.decodeAt bytes
  | .handler => handler <$> HandlerPacket.decodeAt bytes
  | .application => application <$> ApplicationPacket.decodeAt bytes
  | .join => join <$> JoinPacket.decodeAt bytes
  | .accept => accept <$> AcceptPacket.decodeAt bytes

end Packet

end LoraRelay
