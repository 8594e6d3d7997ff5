import LoraRelay.Proofs.Frame.Layout

/-!
# Frames are read back

A frame that the encoder lets through is read back from the air as it was, but for
the upper half of the frame counter, which is not sent. This holds if the payload is
of the kind that the message type is read as (`Payload.Suits`) and the reader is told
a direction that the message type allows (`MessageType.MayTravel`).

## The model

`onAir` is what is left of a header, a payload or a frame when only the lower half
of the counter is sent. The proof goes the way of the format: control byte, header,
elements, payload, frame, and each part cites the one before.
-/

namespace LoraRelay

/-- Messages of this type travel in direction `d`, or have no direction. -/
def MessageType.MayTravel (m : MessageType) (d : Direction) : Prop :=
  m.direction? = none ∨ m.direction? = some d

instance (m : MessageType) (d : Direction) : Decidable (m.MayTravel d) :=
  inferInstanceAs (Decidable (_ ∨ _))

/-- The payload is of the kind that messages of type `m` are read as. -/
def Payload.Suits (m : MessageType) : Payload → Prop
  | data _ => m.isData = true
  | joinRequest _ => m = .joinRequest
  | joinAccept _ => m = .joinAccept
  | proprietary _ => m = .proprietary

instance (m : MessageType) (p : Payload) : Decidable (p.Suits m) := by
  cases p <;> dsimp only [Payload.Suits] <;> infer_instance

theorem MessageType.MayTravel.direction_of_isData {m : MessageType} {d : Direction}
    (h : m.MayTravel d) (hm : m.isData = true) : m.direction? = some d := by
  obtain ⟨e, he⟩ := exists_direction_of_isData hm
  rcases h with h | h
  · rw [he] at h
    cases h
  · exact h

/-! ### The frame header -/

theorem FrameControl.ofByte_toByte {n : Nat} (f : FrameControl) (h : n < 16) :
    ofByte (f.toByte n) = f := by
  have key : ∀ (a b c d : Bool) (n : Fin 16),
      ofByte (toByte ⟨a, b, c, d⟩ n) = ⟨a, b, c, d⟩ := by
    decide +kernel
  exact key f.adr f.adrAckReq f.ack f.fPending ⟨n, h⟩

theorem FrameControl.optionsLength_toByte {n : Nat} (f : FrameControl) (h : n < 16) :
    optionsLength (f.toByte n) = n := by
  have key : ∀ (a b c d : Bool) (n : Fin 16), optionsLength (toByte ⟨a, b, c, d⟩ n) = n := by
    decide +kernel
  exact key f.adr f.adrAckReq f.ack f.fPending ⟨n, h⟩

/-- The lower half of a counter is what is left of it. -/
theorem toUInt32_toUInt16 (w : UInt32) : w.toUInt16.toUInt32 = w % 65536 := by
  apply UInt32.toNat_inj.1
  simp

namespace FrameHeader

/-- The header with the part of the counter that is sent. -/
def onAir (h : FrameHeader) : FrameHeader := { h with counter := h.counter % 65536 }

theorem decode_append_of_encode {h : FrameHeader} {d : Direction} {bytes : Bytes}
    (he : h.encode d = .ok bytes) (rest : Bytes) :
    decode d (bytes ++ rest) = .ok (h.onAir, rest) := by
  obtain ⟨options, ho, hl, rfl⟩ := encode_eq_ok_iff.1 he
  have hl : options.length < 16 := Nat.lt_succ_of_le hl
  refine decode_eq_ok_iff.2 ⟨h.address.toWire, h.control.toByte options.length,
    h.counter.toUInt16.toUInt8, (h.counter.toUInt16 / 256).toUInt8, options, h.options, ?_, ?_,
    Command.decodeAll_of_encodeAll ho, ?_⟩
  · simp [le16]
  · exact (FrameControl.optionsLength_toByte _ hl).symm
  · rw [DevAddr.ofWire_toWire, FrameControl.ofByte_toByte _ hl, ofLe16_le16, toUInt32_toUInt16]
    rfl

end FrameHeader

/-! ### Data payloads -/

namespace PortItem

theorem encodeCommands_eq_ok_iff {d : Direction} {items : List PortItem} {bytes : Bytes} :
    encodeCommands d items = .ok bytes ↔
      ∃ cs, items = cs.map command ∧ Command.encodeAll d cs = .ok bytes := by
  induction items generalizing bytes with
  | nil =>
    constructor
    · exact fun h => ⟨[], rfl, h⟩
    · rintro ⟨cs, hc, h⟩
      rw [List.map_eq_nil_iff.1 hc.symm] at h
      exact h
  | cons item items ih =>
    cases item with
    | data bs =>
      constructor
      · intro h
        cases h
      · rintro ⟨_ | ⟨c, cs⟩, hc, -⟩ <;> cases hc
    | command c =>
      simp only [encodeCommands, bind_eq_ok_iff, pure_eq_ok_iff, ih]
      constructor
      · rintro ⟨first, hf, rest, ⟨cs, rfl, hr⟩, rfl⟩
        exact ⟨c :: cs, rfl, Command.encodeAll_cons_eq_ok_iff.2 ⟨first, rest, hf, hr, rfl⟩⟩
      · rintro ⟨_ | ⟨c', cs⟩, hc, h⟩
        · cases hc
        · cases hc
          obtain ⟨first, rest, hf, hr, rfl⟩ := Command.encodeAll_cons_eq_ok_iff.1 h
          exact ⟨first, hf, rest, ⟨cs, rfl, hr⟩, rfl⟩

/-- Application data is one block with bytes, or no block. -/
theorem encodeData_eq_ok_iff {items : List PortItem} {bytes : Bytes} :
    encodeData items = .ok bytes ↔ items = if bytes = [] then [] else [data bytes] := by
  match items with
  | [] => cases bytes <;> simp [encodeData]
  | [.data []] => cases bytes <;> simp [encodeData]
  | [.data (b :: bs)] =>
    cases bytes with
    | nil => simp [encodeData]
    | cons b' bs' => simp [encodeData]
  | [.command c] => cases bytes <;> simp [encodeData]
  | _ :: _ :: _ => cases bytes <;> simp [encodeData]

theorem decodeFor_of_encodeFor {d : Direction} {port : UInt8} {items : List PortItem}
    {bytes : Bytes} (h : encodeFor d port items = .ok bytes) :
    decodeFor d port bytes = .ok items := by
  unfold encodeFor at h
  unfold decodeFor
  split at h
  · obtain ⟨cs, rfl, hc⟩ := encodeCommands_eq_ok_iff.1 h
    rw [if_pos ‹_›, Command.decodeAll_of_encodeAll hc]
    rfl
  · rw [if_neg ‹_›, encodeData_eq_ok_iff.1 h]

end PortItem

namespace DataPayload

/-- The payload with the part of the counter that is sent. -/
def onAir (p : DataPayload) : DataPayload := { p with header := p.header.onAir }

theorem decode_of_encode {p : DataPayload} {d : Direction} {bytes : Bytes}
    (h : p.encode d = .ok bytes) : decode d bytes = .ok p.onAir := by
  obtain ⟨header, hh, ⟨hp, hi, rfl⟩ | ⟨port, rest, hp, hr, rfl⟩⟩ := encode_eq_ok_iff.1 h
  · have hd := FrameHeader.decode_append_of_encode hh []
    rw [List.append_nil] at hd
    refine decode_eq_ok_iff.2 ⟨_, .inl ⟨hd, ?_⟩⟩
    rw [onAir, hp, hi]
  · have hd := FrameHeader.decode_append_of_encode hh (port :: rest)
    refine decode_eq_ok_iff.2 ⟨_, .inr ⟨port, rest, p.items, hd,
      PortItem.decodeFor_of_encodeFor hr, ?_⟩⟩
    rw [onAir, hp]

end DataPayload

/-! ### Payloads and frames -/

namespace Payload

/-- The payload with the part of the counter that is sent. -/
def onAir : Payload → Payload
  | data p => data p.onAir
  | p => p

theorem decode_of_encode {m : MessageType} {p : Payload} {d : Direction} {bytes : Bytes}
    (hm : p.Suits m) (hd : m.MayTravel d) (h : p.encode m = .ok bytes) :
    decode m d bytes = .ok p.onAir := by
  cases p with
  | data p =>
    have hdir := hd.direction_of_isData hm
    simp only [encode, hdir] at h
    have hp := DataPayload.decode_of_encode h
    cases m <;> cases hm <;> simp only [decode, hp] <;> rfl
  | joinRequest r =>
    cases hm
    cases h
    simp only [decode, JoinRequest.decode_encode]
    rfl
  | joinAccept a =>
    cases hm
    cases h
    simp only [decode, JoinAccept.decode_encode]
    rfl
  | proprietary bs =>
    cases hm
    cases h
    rfl

end Payload

namespace Frame

/-- The frame with the part of the counter that is sent. -/
def onAir (f : Frame) : Frame := { f with payload := f.payload.map Payload.onAir }

/-- A message is read back from what stands before the integrity code. -/
theorem decode_append_of_signed {f : Frame} {p : Payload} {d : Direction} {message : Bytes}
    (hp : f.payload = some p) (hs : p.Suits f.messageType) (hd : f.messageType.MayTravel d)
    (h : f.signed = .ok message) : decode d (message ++ f.mic.toList) = .ok f.onAir := by
  obtain ⟨m, _, mic⟩ := f
  cases hp
  obtain ⟨body, hb, rfl, hl⟩ := signed_eq_ok_iff.1 h
  refine decode_eq_ok_iff.2 ⟨m.header, body, m, p.onAir, mic, rfl, ?_,
    MessageType.ofHeader_header m, Payload.decode_of_encode hs hd hb, rfl⟩
  rw [List.length_append, Octets.length_toList]
  exact hl

/-- **Frames are read back**: what is sent over the air is read as the frame that it
was, with the frame counter modulo 65536. -/
theorem decode_eq_onAir_of_encode {f : Frame} {p : Payload} {d : Direction} {bytes : Bytes}
    (hp : f.payload = some p) (hs : p.Suits f.messageType) (hd : f.messageType.MayTravel d)
    (h : f.encode = .ok bytes) : decode d bytes = .ok f.onAir := by
  obtain ⟨message, hm, rfl⟩ := encode_eq_ok_iff.1 h
  exact decode_append_of_signed hp hs hd hm

/-- A downlink with commands in the header and on port zero and a counter that does
not fit 16 bits. -/
theorem decode_eq_onAir_of_encode_downlink :
    let f : Frame :=
      ⟨.confirmedDataDown, some (.data ⟨⟨⟨⟨[0x26, 0x01, 0x1B, 0xDA], rfl⟩⟩,
        ⟨true, false, true, false⟩, 0x1002A, [.linkAdrReq 5 2 0x00FF 6 1, .devStatusReq]⟩,
        some 0, [.command (.newChannelReq 3 867100000 5 0)]⟩), ⟨[1, 2, 3, 4], rfl⟩⟩
    let bytes : Bytes :=
      [0xA0, 0xDA, 0x1B, 0x01, 0x26, 0xA6, 0x2A, 0x00, 0x03, 0x52, 0xFF, 0x00, 0x61, 0x06,
        0x00, 0x07, 0x03, 0x18, 0x4F, 0x84, 0x50, 1, 2, 3, 4]
    f.encode = .ok bytes ∧ decode .down bytes = .ok f.onAir :=
  ⟨rfl, decode_eq_onAir_of_encode rfl (by decide) (by decide) rfl⟩

end Frame

end LoraRelay
