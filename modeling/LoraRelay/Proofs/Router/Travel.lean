import LoraRelay.Proofs.Metadata.RoundTrip
import LoraRelay.Proofs.Router.Grammar

/-!
# Router packets travel unchanged

Whatever the packet of a frame and its metadata is encoded as is decoded to the same
packet; if it is not encoded, the error says why. The checks that a frame has to pass on
its way into a packet are just those that this needs.

## The model

The encoder takes the direction of the message type first, then the metadata, then the
frame, and the first of them that fails is what is told. Under a data type the direction
is there and the frame can be sent, as that was checked, in 255 bytes at most; this
leaves the metadata. A packet under another type has no direction.

## What is proved

* `RouterPacket.encode_eq_error_iff_of_isData` — the errors of a data packet, one by one.
* `RouterPacket.decode_of_encode` — what is encoded is decoded.
* `RouterPacket.unchanged_or_refused` — all of it, for the packet of any frame.
-/

namespace LoraRelay

theorem MessageType.direction?_eq_none_iff {m : MessageType} :
    m.direction? = none ↔ m = .proprietary ∨ m = .rejoinRequest := by
  cases m <;> simp [direction?]

theorem MessageType.isData_of_direction? {m : MessageType} {d : Direction}
    (hd : m.direction? = some d) (hj : m.isJoin = false) : m.isData = true := by
  cases m <;> simp_all [direction?, isJoin, isData]

theorem Frame.length_of_encode {f : Frame} {bytes : Bytes} (h : f.encode = .ok bytes) :
    bytes.length ≤ maxLength := by
  obtain ⟨message, hs, rfl⟩ := encode_eq_ok_iff.1 h
  obtain ⟨body, -, -, hl⟩ := signed_eq_ok_iff.1 hs
  rw [List.length_append, Octets.length_toList]
  exact hl

namespace RouterPacket

variable {f : Frame} {m : Metadata} {p : RouterPacket}

/-! ### The encoder -/

theorem directionOf_eq_ok_iff {m : MessageType} {d : Direction} :
    directionOf m = .ok d ↔ m.direction? = some d := by
  unfold directionOf
  split
  · simp [*]
  · simp [*]

theorem directionOf_eq_error_iff {m : MessageType} {e : PacketError} :
    directionOf m = .error e ↔ m.direction? = none ∧ .noDirection m = e := by
  unfold directionOf
  split
  · simp [*]
  · simp [*]

theorem encode_eq_ok_iff {bytes : Bytes} :
    p.encode = .ok bytes ↔
      ∃ d json sent, p.messageType.direction? = some d ∧ p.metadata.encode = .ok json ∧
        p.frame.encode = .ok sent ∧
        Piece.encodeAll [.field [d.tag], .field json, .field sent] = .ok bytes := by
  simp only [encode, bind_eq_ok_iff, mapError_eq_ok_iff, directionOf_eq_ok_iff, Piece.assemble]
  constructor
  · rintro ⟨d, hd, json, hj, sent, hs, hb⟩
    exact ⟨d, json, sent, hd, hj, hs, hb⟩
  · rintro ⟨d, json, sent, hd, hj, hs, hb⟩
    exact ⟨d, hd, json, hj, sent, hs, hb⟩

/-- The first part that cannot be written is told. -/
theorem encode_eq_error_iff {e : PacketError} :
    p.encode = .error e ↔
      (p.messageType.direction? = none ∧ .noDirection p.messageType = e) ∨
      ∃ d, p.messageType.direction? = some d ∧
        (p.metadata.encode = .error e ∨
        ∃ json, p.metadata.encode = .ok json ∧
          ((∃ e', p.frame.encode = .error e' ∧ .unwritableFrame e' = e) ∨
          ∃ sent, p.frame.encode = .ok sent ∧
            Piece.assemble [.field [d.tag], .field json, .field sent] = .error e)) := by
  simp only [encode, bind_eq_error_iff, mapError_eq_error_iff, mapError_eq_ok_iff,
    directionOf_eq_ok_iff, directionOf_eq_error_iff]

/-- A tag and a frame are short, so that only the metadata can be too long for a field. -/
theorem assemble_eq_error_iff {d : Direction} {json sent : Bytes} {e : PacketError}
    (hs : sent.length ≤ Frame.maxLength) :
    Piece.assemble [.field [d.tag], .field json, .field sent] = .error e ↔
      Field.maxLength < json.length ∧ .unwritableField (.tooLong json.length) = e := by
  have ht : (Piece.field [d.tag]).Fits := Nat.one_le_iff_ne_zero.2 (by decide)
  have hs : (Piece.field sent).Fits := Nat.le_trans hs (by decide)
  rw [Piece.assemble, mapError_eq_error_iff]
  rcases Nat.lt_or_ge Field.maxLength json.length with hj | hj
  · have he : Piece.encodeAll [.field [d.tag], .field json, .field sent] =
        .error (.tooLong json.length) :=
      Piece.encodeAll_eq_error_iff.2 ⟨[.field [d.tag]], json, [.field sent], rfl, by simpa using ht,
        hj, rfl⟩
    rw [he]
    simp [hj]
  · have he : Piece.encodeAll [.field [d.tag], .field json, .field sent] = .ok _ :=
      Piece.encodeAll_eq_ok_iff.2 ⟨by simpa using ⟨ht, hj, hs⟩, rfl⟩
    rw [he]
    simp [Nat.not_lt.2 hj]

/-- Under a data type a packet can be made only of a frame that can be sent. -/
theorem exists_encode_frame_of_ofFrame (h : ofFrame f m = .ok p)
    (hd : p.messageType.isData = true) : ∃ sent, p.frame.encode = .ok sent := by
  obtain ⟨hs, -, -, rfl, -⟩ := ofFrame_eq_ok_iff.1 h
  exact hs hd

/-- **Why a data packet is refused**: a number in the metadata is not finite, or their
text is too long for a field. -/
theorem encode_eq_error_iff_of_isData (h : ofFrame f m = .ok p)
    (hd : p.messageType.isData = true) {e : PacketError} :
    p.encode = .error e ↔
      (∃ key, p.metadata.notFinite? = some key ∧ .notFinite key = e) ∨
      (p.metadata.notFinite? = none ∧ Field.maxLength < p.metadata.write.length ∧
        .unwritableField (.tooLong p.metadata.write.length) = e) := by
  obtain ⟨d, hdir⟩ := MessageType.exists_direction_of_isData hd
  obtain ⟨sent, hs⟩ := exists_encode_frame_of_ofFrame h hd
  rw [encode_eq_error_iff, hdir, hs]
  simp only [reduceCtorEq, false_and, exists_false, false_or, Option.some.injEq, exists_eq_left',
    Except.ok.injEq, assemble_eq_error_iff (Frame.length_of_encode hs),
    Metadata.encode_eq_error_iff, Metadata.encode_eq_ok_iff]
  constructor
  · rintro (hk | ⟨_, ⟨hn, rfl⟩, hl, he⟩)
    · exact .inl hk
    · exact .inr ⟨hn, hl, he⟩
  · rintro (hk | ⟨hn, hl, he⟩)
    · exact .inl hk
    · exact .inr ⟨_, ⟨hn, rfl⟩, hl, he⟩

/-! ### The round trip -/

/-- **What is encoded is decoded** to the same packet. -/
theorem decode_of_encode (h : ofFrame f m = .ok p) {bytes : Bytes}
    (he : p.encode = .ok bytes) : decode bytes = .ok p := by
  obtain ⟨d, json, sent, hd, hj, hs, hb⟩ := encode_eq_ok_iff.1 he
  obtain ⟨-, hn, hc, rfl, rfl⟩ := ofFrame_eq_ok_iff.1 h
  have hdata : p.messageType.isData = true := MessageType.isData_of_direction? hd hn
  exact decode_eq_ok_iff.2 ⟨d, json, sent, p.metadata, p.frame, hb, Metadata.decode_of_encode hj,
    Frame.decode_of_encode_of_suits rfl hdata (.inr hd) hc hs, h⟩

/-! ### Every packet -/

/-- A data packet is refused exactly for its metadata. -/
theorem exists_encode_eq_error_iff_of_isData (h : ofFrame f m = .ok p)
    (hd : p.messageType.isData = true) :
    (∃ e, p.encode = .error e) ↔
      (∃ x, (p.metadata.freq = some x ∨ p.metadata.lsnr = some x) ∧ ¬ x.IsFinite) ∨
        Field.maxLength < p.metadata.write.length := by
  simp only [encode_eq_error_iff_of_isData h hd, ← Metadata.exists_notFinite_iff]
  constructor
  · rintro ⟨e, ⟨key, hk, -⟩ | ⟨-, hl, -⟩⟩
    · exact .inl ⟨key, hk⟩
    · exact .inr hl
  · rintro (⟨key, hk⟩ | hl)
    · exact ⟨_, .inl ⟨key, hk, rfl⟩⟩
    · cases hn : p.metadata.notFinite? with
      | none => exact ⟨_, .inr ⟨rfl, hl, rfl⟩⟩
      | some key => exact ⟨_, .inl ⟨key, rfl, rfl⟩⟩

/-- A packet has no direction exactly if the protocol does not cover it. -/
theorem exists_implementation_error_iff (h : ofFrame f m = .ok p) :
    (∃ e, p.encode = .error e ∧ e.kind = .implementation) ↔ p.messageType.direction? = none := by
  constructor
  · rintro ⟨e, he, hk⟩
    obtain ⟨-, hj, -, rfl, -⟩ := ofFrame_eq_ok_iff.1 h
    cases hd : p.messageType.direction? with
    | none => rfl
    | some d =>
      have hdata := MessageType.isData_of_direction? hd hj
      rcases (encode_eq_error_iff_of_isData h hdata).1 he with ⟨key, -, rfl⟩ | ⟨-, -, rfl⟩
      · cases hk
      · cases hk
  · intro hd
    exact ⟨_, encode_eq_error_iff.2 (.inl ⟨hd, rfl⟩), rfl⟩

/-- **Every packet of a frame travels unchanged or says why not**: it holds the frame and
the metadata; it is refused as not covered exactly under the types without a direction, and
under a data type, where the frame can always be written, exactly for its metadata; and
what it is encoded as is decoded to the same packet. -/
theorem unchanged_or_refused (h : ofFrame f m = .ok p) :
    (p.frame = f ∧ p.metadata = m) ∧
    ((∃ e, p.encode = .error e ∧ e.kind = .implementation) ↔
      f.messageType = .proprietary ∨ f.messageType = .rejoinRequest) ∧
    (f.messageType.isData = true →
      ((∃ e, p.encode = .error e) ↔
        (∃ x, (m.freq = some x ∨ m.lsnr = some x) ∧ ¬ x.IsFinite) ∨ 65535 < m.write.length) ∧
      ∀ e, p.encode = .error e → e.kind = .structural ∧ ∀ e', e ≠ .unwritableFrame e') ∧
    ∀ bytes, p.encode = .ok bytes → decode bytes = .ok p := by
  obtain ⟨rfl, rfl⟩ := frame_of_ofFrame h
  refine ⟨⟨rfl, rfl⟩, ?_, ?_, fun bytes he => decode_of_encode h he⟩
  · rw [exists_implementation_error_iff h, MessageType.direction?_eq_none_iff]
    rfl
  · intro hd
    refine ⟨exists_encode_eq_error_iff_of_isData h hd, fun e he => ?_⟩
    rcases (encode_eq_error_iff_of_isData h hd).1 he with ⟨key, -, rfl⟩ | ⟨-, -, rfl⟩
    · exact ⟨rfl, fun e' => by simp⟩
    · exact ⟨rfl, fun e' => by simp⟩

/-- An uplink with a command and data, heard at 868.1 MHz and 5.2 dB below the noise. -/
theorem unchanged_or_refused_uplink :
    let p : RouterPacket :=
      ⟨.confirmedDataUp, ⟨⟨⟨⟨[0x26, 0x01, 0x1B, 0xDA], rfl⟩⟩, ⟨true, false, false, false⟩, 0x2A,
        [.linkCheckReq]⟩, some 1, [.data [0xCA, 0xFE]]⟩, ⟨[1, 2, 3, 4], rfl⟩,
        { freq := some ⟨0x408B20CCCCCCCCCD⟩, lsnr := some ⟨0xC014CCCCCCCCCCCD⟩,
          rssi := some (-57) }⟩
    let bytes : Bytes :=
      [0, 1, 1, 0, 37] ++ ascii "\x7b\"freq\":868.1,\"lsnr\":-5.2,\"rssi\":-57\x7d" ++
        [0, 16, 0x80, 0xDA, 0x1B, 0x01, 0x26, 0x81, 0x2A, 0, 0x02, 1, 0xCA, 0xFE, 1, 2, 3, 4]
    ofFrame p.frame p.metadata = .ok p ∧ p.encode = .ok bytes ∧ decode bytes = .ok p := by
  intro p bytes
  have hp : ofFrame p.frame p.metadata = .ok p := by
    decide +kernel
  have he : p.encode = .ok bytes := by
    decide +kernel
  exact ⟨hp, he, (unchanged_or_refused hp).2.2.2 bytes he⟩

end RouterPacket

end LoraRelay
