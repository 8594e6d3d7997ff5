import LoraRelay.Packet.Join
import LoraRelay.Position.Basic

/-!
# Join packets with the nonce as a payload

A join packet is kept like the other packets with identifiers: what its carrier carries is
a string of any length, and the nonce of the device is taken from it by position.

## The model

`JoinPacket.Held` is a packet that is kept in this way, with the ways to make it and the
nonce by position. The packets of the library hold a nonce of two bytes by their type;
`JoinPacket.held` spells them with a payload.
-/

namespace LoraRelay

open Positional

/-- A join packet whose nonce is what its carrier carries. -/
structure JoinPacket.Held where
  /-- Identifiers, and the nonce as the payload. -/
  carrier : Carrier
  /-- What is known about the frame. -/
  metadata : Metadata
  deriving DecidableEq

/-- A join packet with its nonce as the payload. -/
def JoinPacket.held (p : JoinPacket) : Held := ⟨p.carrier, p.metadata⟩

namespace JoinPacket.Held

/-! ### Making packets -/

/-- The packet with given parts. -/
def make (appEui devEui : Eui) (nonce : Octets 2) (metadata : Metadata) : Held :=
  ⟨⟨appEui, devEui, nonce.toList⟩, metadata⟩

/-- The packet of a frame that carries a request to join. -/
def ofFrame (f : Frame) (metadata : Metadata) : Except PacketError Held :=
  match f.payload with
  | some (.joinRequest r) => .ok (make r.appEui r.devEui r.devNonce metadata)
  | _ => .error .notJoinRequest

/-- The packet with given bytes, which is put together here and not by `make`. -/
def decode (bytes : Bytes) : Except PacketError Held := do
  let (carrier, bytes) ← Carrier.decode bytes
  Field.finish .join bytes
  if carrier.payload.length ≠ 2 then throw (.nonceLength carrier.payload.length)
  else return ⟨carrier, .empty⟩

/-! ### The nonce by position -/

/-- The nonce of the device: the bytes at the first two positions of the payload. -/
def devNonce (q : Held) : Positional PacketError (Octets 2) := looks q.carrier.payload 0 2

end JoinPacket.Held

end LoraRelay
