import LoraRelay.Packet.Accept
import LoraRelay.Packet.Handler
import LoraRelay.Packet.Join
import LoraRelay.Proofs.Field
import LoraRelay.Proofs.Metadata.RoundTrip

/-!
# Packets that carry identifiers

Handler, accept and join packets begin with the same three fields. What follows differs:
a field with metadata, the sixteen bytes of a key without a length, or nothing.

## The model

The three fields in front of other parts are what the carrier's decoder takes off, and
the other parts are what it leaves (`Carrier.encodeAll_append_eq_ok_iff`). With this, each
decoder is an equation between byte strings, and each packet is read back from what it is
written as: the lengths tell where a field ends, whatever its bytes are.

## What is proved

* `HandlerPacket.decode_eq_ok_iff`, `AcceptPacket.decode_eq_ok_iff` and
  `JoinPacket.decode_eq_ok_iff` — which bytes are accepted.
* `Carrier.packets_round_trip` — when the three kinds of packets are written, and that
  they are read back; only the metadata of a join packet stay behind.
-/

namespace LoraRelay

/-! ### The carrier -/

namespace Carrier

/-- **The carrier in front of other parts** is what is read off, and they are what is
left. -/
theorem encodeAll_append_eq_ok_iff {c : Carrier} {ps : List Piece} {bytes : Bytes} :
    Piece.encodeAll (c.pieces ++ ps) = .ok bytes ↔
      ∃ rest, decode bytes = .ok (c, rest) ∧ Piece.encodeAll ps = .ok rest := by
  simp only [pieces, List.cons_append, List.nil_append, Piece.encodeAll_field_cons_eq_ok_iff,
    decode, bind_eq_ok_iff, pure_eq_ok_iff]
  constructor
  · rintro ⟨rest₁, h₁, rest₂, h₂, rest₃, h₃, h⟩
    exact ⟨rest₃, ⟨⟨c.appEui.bytes, rest₁⟩, Field.sized_eq_ok_iff.2 h₁,
      ⟨c.devEui.bytes, rest₂⟩, Field.sized_eq_ok_iff.2 h₂,
      ⟨c.payload, rest₃⟩, Field.required_eq_ok_iff.2 h₃, rfl⟩, h⟩
  · rintro ⟨rest, ⟨⟨appEui, rest₁⟩, h₁, ⟨devEui, rest₂⟩, h₂, ⟨payload, rest₃⟩, h₃, hc⟩, h⟩
    cases hc
    exact ⟨rest₁, Field.sized_eq_ok_iff.1 h₁, rest₂, Field.sized_eq_ok_iff.1 h₂, rest₃,
      Field.required_eq_ok_iff.1 h₃, h⟩

/-- Identifiers are short, so that only the payload can be too long for its field. -/
theorem forall_fits_pieces_iff {c : Carrier} :
    (∀ p ∈ c.pieces, p.Fits) ↔ c.payload.length ≤ Field.maxLength := by
  have h₁ : (Piece.field c.appEui.bytes.toList).Fits := by
    simp [Piece.Fits, Field.maxLength]
  have h₂ : (Piece.field c.devEui.bytes.toList).Fits := by
    simp [Piece.Fits, Field.maxLength]
  simp only [pieces, List.forall_mem_cons, h₁, h₂, true_and, List.not_mem_nil, false_imp_iff,
    implies_true, and_true]
  rfl

end Carrier

/-! ### Handler packets -/

namespace HandlerPacket

variable {p : HandlerPacket} {bytes : Bytes}

/-- The carrier and the metadata, as what they are written. -/
theorem encode_eq_ok_iff :
    p.encode = .ok bytes ↔
      ∃ json, p.metadata.encode = .ok json ∧
        Piece.encodeAll (p.carrier.pieces ++ [.field json]) = .ok bytes := by
  simp only [encode, bind_eq_ok_iff, Piece.assemble_eq_ok_iff]

/-- **Which bytes are handler packets**: the carrier, and a field that is read as the
metadata. -/
theorem decode_eq_ok_iff :
    decode bytes = .ok p ↔
      ∃ json, Metadata.decode json = .ok p.metadata ∧
        Piece.encodeAll (p.carrier.pieces ++ [.field json]) = .ok bytes := by
  simp only [decode, bind_eq_ok_iff, pure_eq_ok_iff, Carrier.encodeAll_append_eq_ok_iff,
    Piece.encodeAll_field_cons_eq_ok_iff, Piece.encodeAll_nil_eq_ok_iff]
  constructor
  · rintro ⟨⟨carrier, rest₁⟩, h₁, ⟨json, rest₂⟩, h₂, m, hm, ⟨⟩, h₃, rfl⟩
    exact ⟨json, hm, rest₁, h₁, rest₂, Field.required_eq_ok_iff.1 h₂, Field.finish_eq_ok_iff.1 h₃⟩
  · rintro ⟨json, hm, rest₁, h₁, rest₂, h₂, h₃⟩
    exact ⟨⟨p.carrier, rest₁⟩, h₁, ⟨json, rest₂⟩, Field.required_eq_ok_iff.2 h₂, p.metadata, hm,
      (), Field.finish_eq_ok_iff.2 h₃, rfl⟩

/-- A handler packet is written exactly if the payload and the text of the metadata are
short enough and all numbers are finite. -/
theorem exists_encode_iff :
    (∃ bytes, p.encode = .ok bytes) ↔
      p.carrier.payload.length ≤ Field.maxLength ∧ p.metadata.notFinite? = none ∧
        p.metadata.write.length ≤ Field.maxLength := by
  have hf : (∀ q ∈ p.carrier.pieces ++ [.field p.metadata.write], q.Fits) ↔
      p.carrier.payload.length ≤ Field.maxLength ∧
        p.metadata.write.length ≤ Field.maxLength := by
    rw [List.forall_mem_append, Carrier.forall_fits_pieces_iff, List.forall_mem_singleton]
    rfl
  simp only [encode_eq_ok_iff, Metadata.encode_eq_ok_iff, ← Piece.assemble_eq_ok_iff]
  constructor
  · rintro ⟨bytes, _, ⟨hm, rfl⟩, hb⟩
    obtain ⟨hp, hj⟩ := hf.1 (Piece.exists_assemble_iff.1 ⟨bytes, hb⟩)
    exact ⟨hp, hm, hj⟩
  · rintro ⟨hp, hm, hj⟩
    obtain ⟨bytes, hb⟩ := Piece.exists_assemble_iff.2 (hf.2 ⟨hp, hj⟩)
    exact ⟨bytes, _, ⟨hm, rfl⟩, hb⟩

theorem decode_of_encode (h : p.encode = .ok bytes) : decode bytes = .ok p := by
  obtain ⟨json, hj, hb⟩ := encode_eq_ok_iff.1 h
  exact decode_eq_ok_iff.2 ⟨json, Metadata.decode_of_encode hj, hb⟩

end HandlerPacket

/-! ### Accept packets -/

namespace AcceptPacket

variable {p : AcceptPacket} {bytes : Bytes}

theorem make_eq_ok_iff {c : Carrier} {key : Key} :
    make c key = .ok p ↔ c.payload ≠ [] ∧ p = ⟨c, key⟩ := by
  unfold make
  split
  · simp [*]
  · simp [*, eq_comm]

/-- **Which bytes are accept packets**: the carrier of a payload that is not empty, and
the bytes of the key. -/
theorem decode_eq_ok_iff :
    decode bytes = .ok p ↔ p.carrier.payload ≠ [] ∧ p.encode = .ok bytes := by
  simp only [encode, Piece.assemble_eq_ok_iff, Carrier.encodeAll_append_eq_ok_iff,
    Piece.encodeAll_raw_eq_ok_iff, exists_eq_right, decode, bind_eq_ok_iff]
  constructor
  · rintro ⟨⟨carrier, rest⟩, hc, h⟩
    simp only at h
    split at h
    · rename_i key hk
      obtain ⟨hp, rfl⟩ := make_eq_ok_iff.1 h
      obtain rfl := Octets.ofList?_eq_some_iff.1 hk
      exact ⟨hp, hc⟩
    · simp only [throw_eq_ok_iff] at h
  · rintro ⟨hp, hc⟩
    refine ⟨_, hc, ?_⟩
    simp only [Octets.ofList?_toList]
    exact make_eq_ok_iff.2 ⟨hp, rfl⟩

theorem exists_encode_iff :
    (∃ bytes, p.encode = .ok bytes) ↔ p.carrier.payload.length ≤ Field.maxLength := by
  rw [← Carrier.forall_fits_pieces_iff]
  simp only [encode, Piece.exists_assemble_iff, List.forall_mem_append, List.forall_mem_singleton,
    Piece.Fits, and_true]

end AcceptPacket

/-! ### Join packets -/

namespace JoinPacket

variable {p : JoinPacket} {bytes : Bytes}

/-- **Which bytes are join packets**: the carrier of the nonce, and nothing more. There are
no metadata. -/
theorem decode_eq_ok_iff :
    decode bytes = .ok p ↔ p.metadata = .empty ∧ p.encode = .ok bytes := by
  rw [encode, Piece.assemble_eq_ok_iff, ← List.append_nil p.carrier.pieces]
  simp only [Carrier.encodeAll_append_eq_ok_iff, Piece.encodeAll_nil_eq_ok_iff, exists_eq_right,
    decode, bind_eq_ok_iff]
  constructor
  · rintro ⟨⟨c, rest⟩, hc, ⟨⟩, hf, h⟩
    simp only at h
    split at h
    · rename_i nonce hn
      cases h
      obtain rfl := Field.finish_eq_ok_iff.1 hf
      refine ⟨rfl, ?_⟩
      rw [hc, carrier, ← Octets.ofList?_eq_some_iff.1 hn]
    · simp only [throw_eq_ok_iff] at h
  · rintro ⟨hm, hc⟩
    refine ⟨_, hc, (), Field.finish_eq_ok_iff.2 rfl, ?_⟩
    obtain ⟨appEui, devEui, nonce, m⟩ := p
    obtain rfl : m = .empty := hm
    simp only [carrier, Octets.ofList?_toList]
    rfl

theorem exists_encode (p : JoinPacket) : ∃ bytes, p.encode = .ok bytes := by
  rw [encode, Piece.exists_assemble_iff, Carrier.forall_fits_pieces_iff]
  simp [carrier, Field.maxLength]

end JoinPacket

/-! ### All three -/

namespace Carrier

/-- **Packets that carry identifiers are read back**, whatever they carry. A handler packet
is written exactly if payload and metadata are short enough and the numbers finite, an
accept packet, whose payload is not empty, exactly if the payload is short enough, and a
join packet always; it leaves its metadata behind. -/
theorem packets_round_trip (c : Carrier) (m : Metadata) (nonce : Octets 2) (key : Key) :
    (((∃ bytes, HandlerPacket.encode ⟨c, m⟩ = .ok bytes) ↔
        c.payload.length ≤ 65535 ∧ (∀ x, m.freq = some x ∨ m.lsnr = some x → x.IsFinite) ∧
          m.write.length ≤ 65535) ∧
      ∀ bytes, HandlerPacket.encode ⟨c, m⟩ = .ok bytes → HandlerPacket.decode bytes = .ok ⟨c, m⟩) ∧
    (c.payload ≠ [] →
      AcceptPacket.make c key = .ok ⟨c, key⟩ ∧
      ((∃ bytes, AcceptPacket.encode ⟨c, key⟩ = .ok bytes) ↔ c.payload.length ≤ 65535) ∧
      ∀ bytes, AcceptPacket.encode ⟨c, key⟩ = .ok bytes →
        AcceptPacket.decode bytes = .ok ⟨c, key⟩) ∧
    ∃ bytes, JoinPacket.encode ⟨c.appEui, c.devEui, nonce, m⟩ = .ok bytes ∧
      JoinPacket.decode bytes = .ok ⟨c.appEui, c.devEui, nonce, .empty⟩ := by
  refine ⟨⟨?_, fun bytes he => HandlerPacket.decode_of_encode he⟩, fun hp => ?_, ?_⟩
  · rw [HandlerPacket.exists_encode_iff, Metadata.notFinite?_eq_none_iff]
    rfl
  · refine ⟨AcceptPacket.make_eq_ok_iff.2 ⟨hp, rfl⟩, AcceptPacket.exists_encode_iff,
      fun bytes he => ?_⟩
    exact AcceptPacket.decode_eq_ok_iff.2 ⟨hp, he⟩
  · obtain ⟨bytes, he⟩ := JoinPacket.exists_encode ⟨c.appEui, c.devEui, nonce, .empty⟩
    exact ⟨bytes, he, JoinPacket.decode_eq_ok_iff.2 ⟨rfl, he⟩⟩

/-- A payload and a key that could be taken for fields themselves. -/
theorem packets_round_trip_lookalike :
    let c : Carrier :=
      ⟨⟨⟨[0, 8, 0, 8, 0, 8, 0, 8], rfl⟩⟩, ⟨⟨[0, 0, 0, 0, 0x26, 0x01, 0x1B, 0xDA], rfl⟩⟩,
        [0, 2, 0x7B, 0x7D]⟩
    let m : Metadata := { freq := some ⟨0x408B20CCCCCCCCCD⟩, datr := some "SF7BW125" }
    let nonce : Octets 2 := ⟨[0, 2], rfl⟩
    let key : Key := ⟨⟨[0, 14, 1, 2, 3, 4, 5, 6, 7, 8, 9, 10, 11, 12, 13, 14], rfl⟩⟩
    let front : Bytes :=
      [0, 8, 0, 8, 0, 8, 0, 8, 0, 8, 0, 8, 0, 0, 0, 0, 0x26, 0x01, 0x1B, 0xDA, 0, 4, 0, 2, 0x7B,
        0x7D]
    let handed : Bytes := front ++ [0, 32] ++ ascii "\x7b\"datr\":\"SF7BW125\",\"freq\":868.1\x7d"
    c.payload ≠ [] ∧ HandlerPacket.encode ⟨c, m⟩ = .ok handed ∧
      HandlerPacket.decode handed = .ok ⟨c, m⟩ ∧
      AcceptPacket.encode ⟨c, key⟩ = .ok (front ++ key.bytes.toList) ∧
      AcceptPacket.decode (front ++ key.bytes.toList) = .ok ⟨c, key⟩ ∧
      ∃ bytes, JoinPacket.encode ⟨c.appEui, c.devEui, nonce, m⟩ = .ok bytes ∧
        JoinPacket.decode bytes = .ok ⟨c.appEui, c.devEui, nonce, .empty⟩ := by
  intro c m nonce key front handed
  have hp : c.payload ≠ [] := by decide
  have hh : HandlerPacket.encode ⟨c, m⟩ = .ok handed := by decide +kernel
  have ha : AcceptPacket.encode ⟨c, key⟩ = .ok (front ++ key.bytes.toList) := by decide +kernel
  obtain ⟨⟨-, h₁⟩, h₂, h₃⟩ := packets_round_trip c m nonce key
  exact ⟨hp, hh, h₁ handed hh, ha, (h₂ hp).2.2 _ ha, h₃⟩

end Carrier

end LoraRelay
