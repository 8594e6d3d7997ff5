import LoraRelay.Position.Packet
import LoraRelay.Proofs.Position.Basic

/-!
# Frames written by position

A command is written into a buffer of fixed size, field by field, and what its length
covers is taken out. The reader of router packets does this too, since it writes the frame
that it has read to see whether it can be sent.

## What is proved

For every writer `encode` there is an `encodeAt` that comes to the same and stays inside
(`encodeAt_eq`): each body has room for what is put into it, and no command is longer than
the buffer. So has the check of a router packet (`RouterPacket.ofFrameAt_eq`).
-/

namespace LoraRelay

open Positional

/-! ### Commands -/

namespace Command

theorem encodeAt_eq (c : Command) : c.encodeAt = inside c.encode := by
  unfold encodeAt encode
  split
  · cases c <;> rfl
  · rfl

theorem encodeForAt_eq (d : Direction) (c : Command) :
    c.encodeForAt d = inside (c.encodeFor d) := by
  unfold encodeForAt encodeFor
  split
  · exact encodeAt_eq c
  · rfl

theorem encodeWithinAt_eq (d : Direction) (room : Nat) (cs : List Command) :
    encodeWithinAt d room cs = inside (encodeWithin d room cs) := by
  induction cs generalizing room with
  | nil => rfl
  | cons c cs ih =>
    simp only [encodeWithinAt, encodeWithin, encodeForAt_eq, ih]
    refine inside_bind_congr fun bytes _ => ?_
    split
    · rfl
    · exact inside_bind_congr fun _ _ => rfl

end Command

/-! ### Data payloads -/

theorem FrameHeader.encodeAt_eq (h : FrameHeader) (d : Direction) :
    h.encodeAt d = inside (h.encode d) := by
  rw [encodeAt, encode, Command.encodeWithinAt_eq]
  exact inside_bind_congr fun _ _ => rfl

namespace PortItem

theorem encodeCommandsAt_eq (d : Direction) (items : List PortItem) :
    encodeCommandsAt d items = inside (encodeCommands d items) := by
  induction items with
  | nil => rfl
  | cons item items ih =>
    cases item with
    | data bytes => rfl
    | command c =>
      simp only [encodeCommandsAt, encodeCommands, Command.encodeForAt_eq, ih]
      exact inside_bind_congr fun _ _ => inside_bind_congr fun _ _ => rfl

theorem encodeForAt_eq (d : Direction) (port : UInt8) (items : List PortItem) :
    encodeForAt d port items = inside (encodeFor d port items) := by
  unfold encodeForAt encodeFor
  split
  · exact encodeCommandsAt_eq d items
  · rfl

end PortItem

namespace DataPayload

theorem encodeAt_eq (p : DataPayload) (d : Direction) : p.encodeAt d = inside (p.encode d) := by
  rw [encodeAt, encode, FrameHeader.encodeAt_eq]
  refine inside_bind_congr fun header _ => ?_
  cases p.port with
  | none =>
    simp only
    split <;> rfl
  | some port =>
    simp only [PortItem.encodeForAt_eq]
    exact inside_bind_congr fun _ _ => rfl

end DataPayload

/-! ### Payloads and frames -/

theorem JoinRequest.encodeAt_eq (r : JoinRequest) : r.encodeAt = inside (.ok r.encode) := by
  simp only [encodeAt, copy_toList, inside_ok_bind]
  rfl

namespace Payload

theorem encodeAt_eq (m : MessageType) (p : Payload) : p.encodeAt m = inside (p.encode m) := by
  cases p with
  | data p =>
    simp only [encodeAt, encode]
    cases m.direction? with
    | none => rfl
    | some d => exact p.encodeAt_eq d
  | joinRequest r => exact r.encodeAt_eq
  | joinAccept a => rfl
  | proprietary bytes => rfl

end Payload

namespace Frame

theorem encodePayloadAt_eq (f : Frame) : f.encodePayloadAt = inside f.encodePayload := by
  unfold encodePayloadAt encodePayload
  cases f.payload with
  | none => rfl
  | some p => exact p.encodeAt_eq f.messageType

theorem encodeAt_eq (f : Frame) : f.encodeAt = inside f.encode := by
  rw [encodeAt, encodePayloadAt_eq, encode, signed, bind_assoc]
  refine inside_bind_congr fun body _ => ?_
  simp only
  split <;> rfl

end Frame

/-! ### Router packets -/

namespace RouterPacket

theorem checkSendableAt_eq (f : Frame) : checkSendableAt f = inside (checkSendable f) := by
  unfold checkSendableAt checkSendable
  split
  · rw [Frame.encodeAt_eq, adapt_inside, map_inside]
  · rfl

theorem ofFrameAt_eq (f : Frame) (metadata : Metadata) :
    ofFrameAt f metadata = inside (ofFrame f metadata) := by
  rw [ofFrameAt, ofFrame, checkSendableAt_eq]
  exact inside_bind_congr fun _ _ => rfl

end RouterPacket

end LoraRelay
