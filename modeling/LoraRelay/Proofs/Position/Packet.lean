import LoraRelay.Proofs.Packet.Application
import LoraRelay.Proofs.Packet.Failure
import LoraRelay.Proofs.Position.Reading
import LoraRelay.Proofs.Position.Writing

/-!
# Packets read by position

The readers of packets by position are put together from those of their fields and frames,
and so are the proofs that they stay inside.

## What is proved

* `Packet.decodeAt_eq` — each reader comes to the same and stays inside.
* `Packet.decode_is_safe` — whatever the bytes are, no position outside of a string is
  looked at, no string is cut at such a position, no copy has the wrong length; and
  bytes that are refused are refused with a structural error.
-/

namespace LoraRelay

open Positional

/-! ### Fields -/

namespace Field

theorem readAt_eq (bytes : Bytes) : readAt bytes = inside (read bytes) := by
  match bytes with
  | [] => rfl
  | [_] => rfl
  | hi :: lo :: rest =>
    rw [readAt, if_neg (by simp), if_neg (by simp), slice_to_end (by simp)]
    simp only [look_cons_zero, look_cons_succ, inside_ok_bind]
    by_cases hl : rest.length < 256 * hi.toNat + lo.toNat
    · simp [read, hl]
    · simp [read, hl, cut_of_le (Nat.not_lt.1 hl)]

theorem requiredAt_eq (name : String) (bytes : Bytes) :
    requiredAt name bytes = inside (required name bytes) := by
  rw [requiredAt, readAt_eq, adapt_inside, required]

theorem sizedAt_eq (n : Nat) (name : String) (bytes : Bytes) :
    sizedAt n name bytes = inside (sized n name bytes) := by
  rw [sizedAt, sized, requiredAt_eq]
  refine inside_bind_congr ?_
  rintro ⟨content, rest⟩ -
  simp only
  cases Octets.ofList? n content <;> rfl

end Field

theorem Carrier.decodeAt_eq (bytes : Bytes) : decodeAt bytes = inside (decode bytes) := by
  simp only [decodeAt, decode, Field.sizedAt_eq, Field.requiredAt_eq]
  exact inside_bind_congr fun _ _ => inside_bind_congr fun _ _ => inside_bind_congr fun _ _ => rfl

/-! ### Router and broker packets -/

theorem Octets.look_toList (a : Octets 1) :
    (look a.toList 0 : Positional PacketError UInt8) = inside (.ok a.byte) := by
  match a with
  | ⟨[_], _⟩ => rfl

namespace RouterPacket

theorem decodeAt_eq (bytes : Bytes) : decodeAt bytes = inside (decode bytes) := by
  simp only [decodeAt, decode, Field.sizedAt_eq, Field.requiredAt_eq, Octets.look_toList,
    inside_ok_bind, Frame.decodeAt_eq, adapt_inside, ofFrameAt_eq]
  exact inside_bind_congr fun _ _ => inside_bind_congr fun _ _ => inside_bind_congr fun _ _ =>
    inside_bind_congr fun _ _ => inside_bind_congr fun _ _ => inside_bind_congr fun _ _ =>
      inside_bind_congr fun _ _ => rfl

end RouterPacket

namespace BrokerPacket

theorem ofRouterAt_eq (p : RouterPacket) : ofRouterAt p = inside (ofRouter p) := by
  unfold ofRouterAt ofRouter
  match p.payload.items with
  | [] => rfl
  | [.command _] => rfl
  | [.data bytes] =>
    rw [if_neg (by simp)]
    simp only [look_cons_zero, inside_ok_bind]
    by_cases hb : bytes = []
    · rw [if_pos hb, if_pos hb, throw_eq_inside]
    · rw [if_neg hb, if_neg hb]
      cases p.payload.port with
      | none => rfl
      | some port =>
        simp only
        split <;> rfl
  | .command _ :: _ :: _ =>
    rw [if_pos (by simp)]
    rfl
  | .data _ :: _ :: _ =>
    rw [if_pos (by simp)]
    rfl

theorem decodeAt_eq (bytes : Bytes) : decodeAt bytes = inside (decode bytes) := by
  rw [decodeAt, decode, RouterPacket.decodeAt_eq]
  exact inside_bind_congr fun p _ => ofRouterAt_eq p

end BrokerPacket

/-! ### The other packets -/

theorem HandlerPacket.decodeAt_eq (bytes : Bytes) : decodeAt bytes = inside (decode bytes) := by
  simp only [decodeAt, decode, Carrier.decodeAt_eq, Field.requiredAt_eq]
  exact inside_bind_congr fun _ _ => inside_bind_congr fun _ _ => inside_bind_congr fun _ _ =>
    inside_bind_congr fun _ _ => rfl

namespace ApplicationPacket

theorem decodeEntriesAt_eq (bytes : Bytes) :
    decodeEntriesAt bytes = inside (decodeEntries bytes) := by
  fun_induction decodeEntriesAt bytes with
  | case1 bytes h =>
    rw [Field.readAt_eq] at h
    cases h
  | case2 bytes h =>
    rw [Field.readAt_eq] at h
    rw [Field.read_eq_endOfStream_iff.1 (Option.some.inj h), decodeEntries_nil]
    rfl
  | case3 bytes e he h =>
    rw [Field.readAt_eq] at h
    rw [decodeEntries_of_read_error he (Option.some.inj h)]
    rfl
  | case4 bytes content rest h ih =>
    rw [Field.readAt_eq] at h
    rw [decodeEntries_of_read (Option.some.inj h), ih]
    exact inside_bind_congr fun _ _ => inside_bind_congr fun _ _ => rfl

theorem decodeAt_eq (bytes : Bytes) : decodeAt bytes = inside (decode bytes) := by
  simp only [decodeAt, decode, Field.requiredAt_eq, decodeEntriesAt_eq]
  exact inside_bind_congr fun _ _ => inside_bind_congr fun _ _ => inside_bind_congr fun _ _ =>
    inside_bind_congr fun _ _ => rfl

end ApplicationPacket

theorem JoinPacket.decodeAt_eq (bytes : Bytes) : decodeAt bytes = inside (decode bytes) := by
  rw [decodeAt, decode, Carrier.decodeAt_eq]
  refine inside_bind_congr fun ⟨carrier, rest⟩ _ => inside_bind_congr fun _ _ => ?_
  simp only [copy, Octets.ofList?]
  by_cases hl : carrier.payload.length = 2
  · rw [if_neg (Decidable.not_not.2 hl), dif_pos hl]
    rfl
  · rw [if_pos hl, dif_neg hl]
    rfl

theorem AcceptPacket.decodeAt_eq (bytes : Bytes) : decodeAt bytes = inside (decode bytes) := by
  rw [decodeAt, decode, Carrier.decodeAt_eq]
  exact inside_bind_congr fun _ _ => rfl

/-! ### All kinds -/

namespace Packet

/-- **Every reader stays inside** and comes to the same as the one without positions. -/
theorem decodeAt_eq (bytes : Bytes) (kind : PacketKind) :
    decodeAt bytes kind = inside (decode bytes kind) := by
  cases kind <;>
    simp only [decodeAt, decode, RouterPacket.decodeAt_eq, BrokerPacket.decodeAt_eq,
      HandlerPacket.decodeAt_eq, ApplicationPacket.decodeAt_eq, JoinPacket.decodeAt_eq,
      AcceptPacket.decodeAt_eq, map_inside]

/-- **Reading is safe and fails in one way only.** Whatever the bytes and the kind, the reader
never looks outside of a string, cuts a string at a place that it does not have or copies
bytes of the wrong number, and comes to what the reader without positions comes to. If it
fails, then with a structural error. -/
theorem decode_is_safe (bytes : Bytes) (kind : PacketKind) :
    decodeAt bytes kind ≠ outside ∧ decodeAt bytes kind = inside (decode bytes kind) ∧
      ∀ e, decode bytes kind = .error e → e.kind = .structural := by
  have h := decodeAt_eq bytes kind
  refine ⟨?_, h, failsStructurally_decode bytes kind⟩
  rw [h]
  exact inside_ne_outside _

/-- A request in the frame header is two bytes short of the body that its number asks for. -/
theorem decode_is_safe_truncated_command :
    let frame : Bytes := [0x60, 0xDA, 0x1B, 0x01, 0x26, 0x03, 0x2A, 0x00, 0x03, 0x50, 0xFF,
      0xC0, 0xFF, 0xEE, 0x00]
    let sent : Bytes := [0, 1, 2, 0, 2] ++ ascii "\x7b\x7d" ++ [0, 15] ++ frame
    decodeAt sent .router = inside (.error (.unreadableFrame (.truncatedCommand 3))) ∧
      (PacketError.unreadableFrame (.truncatedCommand 3)).kind = .structural := by
  intro frame sent
  have hd : decode sent .router = .error (.unreadableFrame (.truncatedCommand 3)) := by
    decide +kernel
  obtain ⟨-, hi, hs⟩ := decode_is_safe sent .router
  exact ⟨hi.trans (congrArg inside hd), hs _ hd⟩

end Packet

end LoraRelay
