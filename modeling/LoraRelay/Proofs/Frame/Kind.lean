import LoraRelay.Proofs.Frame.Reserved

/-!
# Payloads under another header

The encoder goes by what a payload is and the decoder by the message type. Where the
two do not agree, the encoder mostly does not notice: only data under a type without
direction is refused. What it lets through otherwise is read as something else, or not
at all.

## What is proved

* `Frame.decode_of_encode_eq_self_iff` — a frame whose counter fits is read back as it
  was exactly if its payload is of the kind that its message type is read as.
* `Frame.decode_of_encode_ne_self` — a request to join under the header of a data
  message is sent and read as data.
-/

namespace LoraRelay

/-! ### Counters that fit -/

theorem FrameHeader.onAir_eq_self_iff {h : FrameHeader} : h.onAir = h ↔ h.counter ≤ 65535 := by
  have hm : h.counter % 65536 = h.counter ↔ h.counter ≤ 65535 := by
    rw [← UInt32.toNat_inj, UInt32.le_iff_toNat_le]
    simp only [UInt32.toNat_mod, UInt32.reduceToNat]
    omega
  rw [← hm]
  obtain ⟨address, control, counter, options⟩ := h
  simp [onAir]

namespace Frame

/-- The counter, if there is one, fits the 16 bits that are sent. -/
def CounterFits (f : Frame) : Prop := ∀ p ∈ f.data?, p.header.counter ≤ 65535

instance (f : Frame) : Decidable f.CounterFits := inferInstanceAs (Decidable (∀ p ∈ f.data?, _))

theorem onAir_eq_self_iff {f : Frame} : f.onAir = f ↔ f.CounterFits := by
  obtain ⟨m, _ | p, mic⟩ := f
  · simp [onAir, CounterFits, data?]
  · cases p with
    | data p =>
      obtain ⟨header, port, items⟩ := p
      simp [onAir, Payload.onAir, DataPayload.onAir, FrameHeader.onAir_eq_self_iff, CounterFits,
        data?, Payload.data?]
    | joinRequest r => simp [onAir, Payload.onAir, CounterFits, data?, Payload.data?]
    | joinAccept a => simp [onAir, Payload.onAir, CounterFits, data?, Payload.data?]
    | proprietary bs => simp [onAir, Payload.onAir, CounterFits, data?, Payload.data?]

/-- A frame of the right kind whose counter fits is read back as it was. -/
theorem decode_of_encode_of_suits {f : Frame} {p : Payload} {d : Direction} {bytes : Bytes}
    (hp : f.payload = some p) (hs : p.Suits f.messageType) (hd : f.messageType.MayTravel d)
    (hc : f.CounterFits) (h : f.encode = .ok bytes) : decode d bytes = .ok f := by
  obtain ⟨message, hm, rfl⟩ := encode_eq_ok_iff.1 h
  rw [decode_append_of_signed hp hs hd hm, onAir_eq_self_iff.2 hc]

/-! ### Kinds of payloads -/

/-- **What is sent is read back exactly under the header of its kind**: a frame whose
counter fits and that the encoder lets through is read as it was exactly if it has a
payload, and one of the kind that its message type is read as. -/
theorem decode_of_encode_eq_self_iff {f : Frame} {d : Direction} {bytes : Bytes}
    (hd : f.messageType.MayTravel d) (hc : f.CounterFits) (h : f.encode = .ok bytes) :
    decode d bytes = .ok f ↔ ∃ p, f.payload = some p ∧ p.Suits f.messageType := by
  constructor
  · intro hb
    exact (suits_of_decode hb).1
  · rintro ⟨p, hp, hs⟩
    exact decode_of_encode_of_suits hp hs hd hc h

/-- A downlink with commands and the largest counter that fits. -/
theorem decode_of_encode_eq_self_iff_downlink :
    let p : DataPayload :=
      ⟨⟨⟨⟨[0x26, 0x01, 0x1B, 0xDA], rfl⟩⟩, ⟨true, false, true, false⟩, 0xFFFF, [.devStatusReq]⟩,
        some 0, [.command (.newChannelReq 3 867100000 5 0)]⟩
    let f : Frame := ⟨.confirmedDataDown, some (.data p), ⟨[1, 2, 3, 4], rfl⟩⟩
    let bytes : Bytes :=
      [0xA0, 0xDA, 0x1B, 0x01, 0x26, 0xA1, 0xFF, 0xFF, 0x06, 0x00, 0x07, 0x03, 0x18, 0x4F, 0x84,
        0x50, 1, 2, 3, 4]
    f.messageType.MayTravel .down ∧ f.CounterFits ∧ f.encode = .ok bytes ∧
      (decode .down bytes = .ok f ↔ ∃ p, f.payload = some p ∧ p.Suits f.messageType) := by
  intro p f bytes
  have hd : f.messageType.MayTravel .down := by decide
  have hc : f.CounterFits := by decide
  have he : f.encode = .ok bytes := by cbv
  exact ⟨hd, hc, he, decode_of_encode_eq_self_iff hd hc he⟩

/-- A request to join under the header of a data message: the encoder lets it through,
and its bytes are read as data for port one. -/
theorem decode_of_encode_ne_self :
    ¬ ∀ (f : Frame) (d : Direction) (bytes : Bytes), f.messageType.MayTravel d → f.CounterFits →
      f.encode = .ok bytes → decode d bytes = .ok f := by
  intro h
  let f : Frame :=
    ⟨.unconfirmedDataUp, some (.joinRequest ⟨⟨⟨[0x01, 0, 0, 0, 0x26, 0x01, 0x1B, 0xDA], rfl⟩⟩,
      ⟨⟨[0x11, 0x12, 0x13, 0x14, 0x15, 0x16, 0x17, 0x18], rfl⟩⟩, ⟨[0xA1, 0xA2], rfl⟩⟩),
      ⟨[1, 2, 3, 4], rfl⟩⟩
  let bytes : Bytes :=
    [0x40, 0xDA, 0x1B, 0x01, 0x26, 0, 0, 0, 0x01, 0x18, 0x17, 0x16, 0x15, 0x14, 0x13, 0x12, 0x11,
      0xA1, 0xA2, 1, 2, 3, 4]
  have hb : decode .up bytes =
      .ok ⟨.unconfirmedDataUp, some (.data ⟨⟨⟨⟨[0x26, 0x01, 0x1B, 0xDA], rfl⟩⟩,
        ⟨false, false, false, false⟩, 0, []⟩, some 1,
        [.data [0x18, 0x17, 0x16, 0x15, 0x14, 0x13, 0x12, 0x11, 0xA1, 0xA2]]⟩),
        ⟨[1, 2, 3, 4], rfl⟩⟩ := by cbv
  have hf := h f .up bytes (by decide) (by decide) (by cbv)
  rw [hb] at hf
  exact absurd (Except.ok.inj hf) (by decide)

end Frame

end LoraRelay
