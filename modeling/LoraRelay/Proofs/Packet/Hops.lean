import LoraRelay.Packet.Basic
import LoraRelay.Proofs.Metadata.Finite
import LoraRelay.Proofs.Packet.Application
import LoraRelay.Proofs.Packet.Broker
import LoraRelay.Proofs.Packet.Carrier

/-!
# Packets are stable over hops

A tier that reads a packet and sends it on writes it anew. The bytes may change: blanks
and unknown keys of a text go, numbers get their shortest spelling, reserved bits are
cleared, and the tag becomes that of the frame. The packet does not: what is written is
read as the same packet again.

## The model

What was read can be written, part by part. The frame of a router packet was encoded when
the packet was made; identifiers, payloads and keys are written as they were read; and the
numbers of metadata that were read are finite. This leaves one way to fail: metadata that
were shorter in the spelling in which they came do not fit their field when they are
written (`Packet.metadataFields`).

## What is proved

* `RouterPacket.encode_of_decode`, `HandlerPacket.encode_of_decode` and
  `ApplicationPacket.encode_of_decode` — a packet that was read is written, or a field
  with metadata is too long.
* `Packet.stable_over_hops` — all six kinds: what is written is read as the same packet,
  and join and accept packets do not change a byte.
-/

namespace LoraRelay

/-- A result, or the error of one of the fields, whose content is too long. -/
def WrittenUnlessTooLong (fields : List Bytes) (written : Except PacketError Bytes) : Prop :=
  (∃ bytes, written = .ok bytes) ∨
    ∃ content ∈ fields, Field.maxLength < content.length ∧
      written = .error (.unwritableField (.tooLong content.length))

/-! ### Router and broker packets -/

namespace RouterPacket

variable {bytes sent : Bytes} {p : RouterPacket}

theorem ofFrame_of_decode (h : decode bytes = .ok p) :
    ofFrame p.frame p.metadata = .ok p ∧ p.messageType.isData = true ∧
      p.metadata.notFinite? = none := by
  obtain ⟨d, json, sent, m, f, -, hm, hf, hp⟩ := decode_eq_ok_iff.1 h
  obtain ⟨hd, -, rfl, rfl⟩ := (ofFrame_of_decode_iff hf).1 hp
  exact ⟨hp, hd, Metadata.notFinite?_of_decode hm⟩

/-- A router packet that was read is written, unless its metadata are too long. -/
theorem encode_of_decode (h : decode bytes = .ok p) :
    WrittenUnlessTooLong [p.metadata.write] p.encode := by
  obtain ⟨hp, hd, hn⟩ := ofFrame_of_decode h
  cases he : p.encode with
  | ok sent => exact .inl ⟨sent, rfl⟩
  | error e =>
    rcases (encode_eq_error_iff_of_isData hp hd).1 he with ⟨key, hk, -⟩ | ⟨-, hl, rfl⟩
    · rw [hn] at hk
      cases hk
    · exact .inr ⟨_, List.mem_singleton_self _, hl, rfl⟩

theorem decode_of_encode_of_decode (h : decode bytes = .ok p) (he : p.encode = .ok sent) :
    decode sent = .ok p :=
  decode_of_encode (ofFrame_of_decode h).1 he

end RouterPacket

namespace BrokerPacket

variable {bytes sent : Bytes} {b : BrokerPacket}

theorem decode_of_encode_of_decode (h : decode bytes = .ok b) (he : b.encode = .ok sent) :
    decode sent = .ok b := by
  obtain ⟨hp, hb⟩ := decode_eq_ok_iff.1 h
  exact decode_eq_ok_iff.2 ⟨RouterPacket.decode_of_encode_of_decode hp he, hb⟩

end BrokerPacket

/-! ### Handler packets -/

/-- A handler packet that was read is written, unless its metadata are too long. -/
theorem HandlerPacket.encode_of_decode {bytes : Bytes} {p : HandlerPacket}
    (h : decode bytes = .ok p) : WrittenUnlessTooLong [p.metadata.write] p.encode := by
  obtain ⟨json, hm, hb⟩ := decode_eq_ok_iff.1 h
  obtain ⟨hm, -⟩ := Metadata.encode_of_decode hm
  obtain ⟨hfits, -⟩ := Piece.encodeAll_eq_ok_iff.1 hb
  have he : p.encode = Piece.assemble (p.carrier.pieces ++ [.field p.metadata.write]) := by
    rw [encode, hm]
    rfl
  rw [he]
  rcases Piece.assemble_ok_or_tooLong (p.carrier.pieces ++ [.field p.metadata.write]) with
    hs | ⟨content, hc, hl, hs⟩
  · exact .inl hs
  · rcases List.mem_append.1 hc with hc | hc
    · -- a field of the carrier is as long as it came
      exact absurd (hfits _ (List.mem_append_left _ hc)) (Nat.not_le.2 hl)
    · cases List.mem_singleton.1 hc
      exact .inr ⟨_, List.mem_singleton_self _, hl, hs⟩

/-! ### Application packets -/

namespace ApplicationPacket

theorem notFinite?_of_isEntries {ms : List Metadata} {bytes : Bytes} (h : IsEntries ms bytes) :
    ∀ m ∈ ms, m.notFinite? = none := by
  obtain ⟨texts, -, ht⟩ := h
  induction ht with
  | nil => simp
  | cons hm _ ih =>
    rw [List.forall_mem_cons]
    exact ⟨Metadata.notFinite?_of_decode hm, ih⟩

/-- Entries with finite numbers are written, unless one of them is too long. -/
theorem encodeEntries_of_finite {ms : List Metadata} (h : ∀ m ∈ ms, m.notFinite? = none) :
    encodeEntries ms = .ok (entriesLayout ms) ∨
      ∃ text ∈ ms.map Metadata.write, Field.maxLength < text.length ∧
        encodeEntries ms = .error (.unwritableField (.tooLong text.length)) := by
  have he : encodeEntries ms = Piece.assemble (entryFields ms) := by
    rw [encodeEntries, entryPieces_eq_ok_iff.2 ⟨h, rfl⟩]
    rfl
  rw [he]
  rcases Piece.assemble_ok_or_tooLong (entryFields ms) with ⟨bytes, hs⟩ | ⟨text, ht, hl, hs⟩
  · obtain ⟨-, rfl⟩ := Piece.encodeAll_eq_ok_iff.1 (Piece.assemble_eq_ok_iff.1 hs)
    exact .inl hs
  · obtain ⟨m, hm, hf⟩ := List.mem_map.1 ht
    cases hf
    exact .inr ⟨_, List.mem_map_of_mem hm, hl, hs⟩

/-- An application packet that was read is written, unless an entry or the list of entries
is too long. -/
theorem encode_of_decode {bytes : Bytes} {p : ApplicationPacket} (h : decode bytes = .ok p) :
    WrittenUnlessTooLong (p.metadata.map Metadata.write ++ [entriesLayout p.metadata])
      p.encode := by
  obtain ⟨entries, -, hes, hb⟩ := decode_eq_ok_iff.1 h
  obtain ⟨hfits, -⟩ := Piece.encodeAll_eq_ok_iff.1 hb
  rcases encodeEntries_of_finite (notFinite?_of_isEntries hes) with he | ⟨text, ht, hl, he⟩
  · have hp : p.encode =
        Piece.assemble [.field p.payload, .field (entriesLayout p.metadata)] := by
      rw [encode, he]
      rfl
    rw [hp]
    rcases Piece.assemble_ok_or_tooLong [.field p.payload, .field (entriesLayout p.metadata)] with
      hs | ⟨content, hc, hl, hs⟩
    · exact .inl hs
    · rcases List.mem_cons.1 hc with hc | hc
      · cases hc
        exact absurd (hfits _ List.mem_cons_self) (Nat.not_le.2 hl)
      · cases List.mem_singleton.1 hc
        exact .inr ⟨_, List.mem_append_right _ (List.mem_singleton_self _), hl, hs⟩
  · refine .inr ⟨text, List.mem_append_left _ ht, hl, ?_⟩
    rw [encode, he]
    rfl

end ApplicationPacket

/-! ### Packets of all kinds -/

namespace Packet

/-- The contents of the fields that hold metadata: their text, or for an application the
text of each entry and the whole list of them. -/
def metadataFields : Packet → List Bytes
  | router p => [p.metadata.write]
  | broker b => [b.metadata.write]
  | handler p => [p.metadata.write]
  | application p => p.metadata.map Metadata.write ++ [ApplicationPacket.entriesLayout p.metadata]
  | join _ => []
  | accept _ => []

/-- A packet that was read is written, unless a field with metadata is too long. -/
theorem encode_of_decode {bytes : Bytes} {kind : PacketKind} {p : Packet}
    (h : decode bytes kind = .ok p) : WrittenUnlessTooLong p.metadataFields p.encode := by
  cases kind with
  | router =>
    obtain ⟨p, hp, rfl⟩ := map_eq_ok_iff.1 h
    exact RouterPacket.encode_of_decode hp
  | broker =>
    obtain ⟨b, hb, rfl⟩ := map_eq_ok_iff.1 h
    exact RouterPacket.encode_of_decode (BrokerPacket.decode_eq_ok_iff.1 hb).1
  | handler =>
    obtain ⟨p, hp, rfl⟩ := map_eq_ok_iff.1 h
    exact HandlerPacket.encode_of_decode hp
  | application =>
    obtain ⟨p, hp, rfl⟩ := map_eq_ok_iff.1 h
    exact ApplicationPacket.encode_of_decode hp
  | join =>
    obtain ⟨p, hp, rfl⟩ := map_eq_ok_iff.1 h
    exact .inl ⟨bytes, (JoinPacket.decode_eq_ok_iff.1 hp).2⟩
  | accept =>
    obtain ⟨p, hp, rfl⟩ := map_eq_ok_iff.1 h
    exact .inl ⟨bytes, (AcceptPacket.decode_eq_ok_iff.1 hp).2⟩

theorem decode_of_encode_of_decode {bytes sent : Bytes} {kind : PacketKind} {p : Packet}
    (h : decode bytes kind = .ok p) (he : p.encode = .ok sent) : decode sent kind = .ok p := by
  cases kind with
  | router =>
    obtain ⟨p, hp, rfl⟩ := map_eq_ok_iff.1 h
    exact map_eq_ok_iff.2 ⟨p, RouterPacket.decode_of_encode_of_decode hp he, rfl⟩
  | broker =>
    obtain ⟨b, hb, rfl⟩ := map_eq_ok_iff.1 h
    exact map_eq_ok_iff.2 ⟨b, BrokerPacket.decode_of_encode_of_decode hb he, rfl⟩
  | handler =>
    obtain ⟨p, -, rfl⟩ := map_eq_ok_iff.1 h
    exact map_eq_ok_iff.2 ⟨p, HandlerPacket.decode_of_encode he, rfl⟩
  | application =>
    obtain ⟨p, hp, rfl⟩ := map_eq_ok_iff.1 h
    obtain ⟨_, hne, -⟩ := ApplicationPacket.decode_eq_ok_iff.1 hp
    exact map_eq_ok_iff.2 ⟨p, ApplicationPacket.decode_of_encode hne he, rfl⟩
  | join =>
    obtain ⟨p, hp, rfl⟩ := map_eq_ok_iff.1 h
    obtain ⟨hm, -⟩ := JoinPacket.decode_eq_ok_iff.1 hp
    exact map_eq_ok_iff.2 ⟨p, JoinPacket.decode_eq_ok_iff.2 ⟨hm, he⟩, rfl⟩
  | accept =>
    obtain ⟨p, hp, rfl⟩ := map_eq_ok_iff.1 h
    obtain ⟨hne, -⟩ := AcceptPacket.decode_eq_ok_iff.1 hp
    exact map_eq_ok_iff.2 ⟨p, AcceptPacket.decode_eq_ok_iff.2 ⟨hne, he⟩, rfl⟩

/-- **Packets are stable over hops**: a packet that was read is written as bytes that are
read as the same packet, or a field with its metadata is too long, and the error says so.
Join and accept packets are written as they came. -/
theorem stable_over_hops {bytes : Bytes} {kind : PacketKind} {p : Packet}
    (h : decode bytes kind = .ok p) :
    ((∃ sent, p.encode = .ok sent ∧ decode sent kind = .ok p) ∨
      ∃ content ∈ p.metadataFields, 65535 < content.length ∧
        ∃ e, p.encode = .error e ∧ e.kind = .structural ∧
          e.cause = some (.field (.tooLong content.length))) ∧
    (kind = .join ∨ kind = .accept → p.encode = .ok bytes) := by
  constructor
  · rcases encode_of_decode h with ⟨sent, he⟩ | ⟨content, hc, hl, he⟩
    · exact .inl ⟨sent, he, decode_of_encode_of_decode h he⟩
    · exact .inr ⟨content, hc, hl, _, he, rfl, rfl⟩
  · rintro (rfl | rfl)
    · obtain ⟨p, hp, rfl⟩ := map_eq_ok_iff.1 h
      exact (JoinPacket.decode_eq_ok_iff.1 hp).2
    · obtain ⟨p, hp, rfl⟩ := map_eq_ok_iff.1 h
      exact (AcceptPacket.decode_eq_ok_iff.1 hp).2

/-- A downlink under the tag of an uplink, with reserved bits in its first byte and with
blanks, an unknown key and an integer for a frequency in its metadata. -/
theorem stable_over_hops_downlink :
    let bytes : Bytes :=
      [0, 1, 1, 0, 31] ++ ascii "\x7b \"freq\" : 868, \"x\" : [1e999] \x7d" ++
        [0, 12, 0x7C, 0xDA, 0x1B, 0x01, 0x26, 0, 0x2A, 0, 1, 2, 3, 4]
    let p : Packet :=
      .router ⟨.unconfirmedDataDown, ⟨⟨⟨⟨[0x26, 0x01, 0x1B, 0xDA], rfl⟩⟩,
        ⟨false, false, false, false⟩, 0x2A, []⟩, none, []⟩, ⟨[1, 2, 3, 4], rfl⟩,
        { freq := some ⟨0x408B200000000000⟩ }⟩
    decode bytes .router = .ok p ∧
      ((∃ sent, p.encode = .ok sent ∧ decode sent .router = .ok p) ∨
        ∃ content ∈ p.metadataFields, 65535 < content.length ∧
          ∃ e, p.encode = .error e ∧ e.kind = .structural ∧
            e.cause = some (.field (.tooLong content.length))) ∧
      (PacketKind.router = .join ∨ PacketKind.router = .accept → p.encode = .ok bytes) := by
  intro bytes p
  have h : decode bytes .router = .ok p := by decide +kernel
  exact ⟨h, stable_over_hops h⟩

end Packet

end LoraRelay
