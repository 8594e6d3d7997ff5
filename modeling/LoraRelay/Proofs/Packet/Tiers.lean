import LoraRelay.Proofs.Packet.Hops

/-!
# From the radio to an application

A frame that a gateway heard becomes a broker packet, the broker makes a handler packet of
it, and the handler an application packet. In between each packet is written and read
again. The data of the frame and its metadata come through as they were.

## The model

`throughWire` is what the next tier gets of a packet: what is read from what was written.
`relay` is the way of a frame through the three tiers, each of which makes its packet of what
it got. Every packet is read back, so that it is enough to see that none of them is refused:
the data of a frame are short, and for the metadata the last packet is the narrowest, as
their list takes two bytes more than their text.

## What is proved

* `BrokerPacket.exists_data_of_ofFrame` — what a broker packet holds of its frame.
* `radio_to_application` — a frame with data comes through all tiers: nothing is refused and
  nothing is lost.
-/

namespace LoraRelay

/-- A packet as the next tier gets it: what is read from what was written. -/
def throughWire {α : Type} (encode : α → Except PacketError Bytes)
    (decode : Bytes → Except PacketError α) (p : α) : Except PacketError α := do
  decode (← encode p)

theorem throughWire_eq_ok {α : Type} {encode : α → Except PacketError Bytes}
    {decode : Bytes → Except PacketError α} {p : α} {bytes : Bytes} (he : encode p = .ok bytes)
    (hd : decode bytes = .ok p) : throughWire encode decode p = .ok p :=
  bind_eq_ok_iff.2 ⟨bytes, he, hd⟩

/-- The packets that a frame with metadata becomes on its way to an application, as the
tiers get them. -/
def relay (appEui : Eui) (f : Frame) (m : Metadata) :
    Except PacketError (BrokerPacket × HandlerPacket × ApplicationPacket) := do
  let b ← throughWire BrokerPacket.encode BrokerPacket.decode (← BrokerPacket.ofFrame f m)
  let h ← throughWire HandlerPacket.encode HandlerPacket.decode (.ofBroker appEui b)
  let a ← throughWire ApplicationPacket.encode ApplicationPacket.decode
    (← ApplicationPacket.ofHandler h)
  return (b, h, a)

theorem BrokerPacket.exists_data_of_ofFrame {f : Frame} {m : Metadata} {b : BrokerPacket}
    (h : ofFrame f m = .ok b) :
    ∃ p data, f.payload = some (.data p) ∧ p.items = [.data data] ∧ data ≠ [] ∧
      b.payload = data ∧ b.devEui = .ofDevAddr p.header.address ∧ b.metadata = m := by
  obtain ⟨hp, hb⟩ := ofFrame_eq_ok_iff.1 h
  obtain ⟨⟨data, hi, hn⟩, -, -⟩ := ofRouter_eq_ok_iff.1 hb
  obtain ⟨rfl, rfl⟩ := RouterPacket.frame_of_ofFrame hp
  exact ⟨b.router.payload, data, rfl, hi, hn, payload_eq hi, rfl, rfl⟩

section Tiers

variable {f : Frame} {m : Metadata} {b : BrokerPacket}

/-- An application packet with one entry is written if there is room for the entry and its
length. -/
theorem ApplicationPacket.exists_encode_singleton {payload : Bytes}
    (hp : payload.length ≤ Field.maxLength) (hm : m.notFinite? = none)
    (hl : m.write.length ≤ 65533) : ∃ bytes, encode ⟨payload, [m]⟩ = .ok bytes := by
  refine exists_encode_iff.2 ⟨hp, by simpa using hm, ?_⟩
  simp only [List.map_cons, List.map_nil, List.sum_cons, List.sum_nil, Field.maxLength]
  omega

/-- **From the radio to an application nothing is refused and nothing is lost.** If there is
a broker packet of a data frame with metadata whose numbers are finite and whose text has at
most 65533 bytes, then the packets of all tiers are made and written. Each may be replaced by
what is read from what it was written as before the next is made: the application gets the
data of the frame and the metadata, and the handler packet names the device by four zero bytes
and the address in the frame. -/
theorem radio_to_application (appEui : Eui) (hb : BrokerPacket.ofFrame f m = .ok b)
    (hd : f.messageType.isData = true) (hm : ∀ x, m.freq = some x ∨ m.lsnr = some x → x.IsFinite)
    (hl : m.write.length ≤ 65533) :
    ∃ p data h a, f.payload = some (.data p) ∧ p.items = [.data data] ∧
      h = HandlerPacket.ofBroker appEui b ∧ ApplicationPacket.ofHandler h = .ok a ∧
      ((∃ bytes, b.encode = .ok bytes) ∧ (∃ bytes, h.encode = .ok bytes) ∧
        ∃ bytes, a.encode = .ok bytes) ∧
      relay appEui f m = .ok (b, h, a) ∧ a.payload = data ∧ a.metadata = [m] ∧
      h.carrier.appEui = appEui ∧
      h.carrier.devEui.bytes.toList = [0, 0, 0, 0] ++ p.header.address.bytes.toList := by
  have hm := Metadata.notFinite?_eq_none_iff.2 hm
  have hlf : m.write.length ≤ Field.maxLength := Nat.le_trans hl (by decide)
  obtain ⟨p, data, hf, hi, hn, rfl, he, rfl⟩ := BrokerPacket.exists_data_of_ofFrame hb
  have hp : b.payload.length ≤ Field.maxLength :=
    Nat.le_trans (BrokerPacket.length_payload_of_ofFrame hb hd) (by decide)
  have ha : ApplicationPacket.ofHandler (.ofBroker appEui b) = .ok ⟨b.payload, [b.metadata]⟩ :=
    ApplicationPacket.make_eq_ok_iff.2 ⟨hn, rfl⟩
  obtain ⟨bytes₁, h₁⟩ := BrokerPacket.exists_encode_of_ofFrame hb hd hm hlf
  obtain ⟨bytes₂, h₂⟩ : ∃ bytes, (HandlerPacket.ofBroker appEui b).encode = .ok bytes :=
    HandlerPacket.exists_encode_iff.2 ⟨hp, hm, hlf⟩
  obtain ⟨bytes₃, h₃⟩ := ApplicationPacket.exists_encode_singleton hp hm hl
  refine ⟨p, b.payload, .ofBroker appEui b, ⟨b.payload, [b.metadata]⟩, hf, hi, rfl, ha,
    ⟨⟨bytes₁, h₁⟩, ⟨bytes₂, h₂⟩, bytes₃, h₃⟩, ?_, rfl, rfl, rfl, ?_⟩
  · have w₁ := throughWire_eq_ok h₁ (BrokerPacket.decode_of_encode hb h₁)
    have w₂ := throughWire_eq_ok h₂ (HandlerPacket.decode_of_encode h₂)
    have w₃ := throughWire_eq_ok h₃ (ApplicationPacket.decode_of_encode hn h₃)
    exact bind_eq_ok_iff.2 ⟨b, hb, bind_eq_ok_iff.2 ⟨b, w₁, bind_eq_ok_iff.2 ⟨_, w₂,
      bind_eq_ok_iff.2 ⟨_, ha, bind_eq_ok_iff.2 ⟨_, w₃, rfl⟩⟩⟩⟩⟩
  · change b.devEui.bytes.toList = _
    rw [he]
    rfl

/-- A confirmed uplink with a command and two bytes of data, heard at 868.1 MHz. -/
theorem radio_to_application_uplink :
    let appEui : Eui := ⟨⟨[1, 2, 3, 4, 5, 6, 7, 8], rfl⟩⟩
    let payload : DataPayload :=
      ⟨⟨⟨⟨[0x26, 0x01, 0x1B, 0xDA], rfl⟩⟩, ⟨true, false, false, false⟩, 0x2A, [.linkCheckReq]⟩,
        some 1, [.data [0xCA, 0xFE]]⟩
    let f : Frame := ⟨.confirmedDataUp, some (.data payload), ⟨[1, 2, 3, 4], rfl⟩⟩
    let m : Metadata := { freq := some ⟨0x408B20CCCCCCCCCD⟩, rssi := some (-57) }
    let b : BrokerPacket := ⟨⟨.confirmedDataUp, payload, ⟨[1, 2, 3, 4], rfl⟩, m⟩⟩
    BrokerPacket.ofFrame f m = .ok b ∧ m.write.length ≤ 65533 ∧
      ∃ h a, relay appEui f m = .ok (b, h, a) ∧ a.payload = [0xCA, 0xFE] ∧ a.metadata = [m] ∧
        h.carrier.devEui.bytes.toList = [0, 0, 0, 0, 0x26, 0x01, 0x1B, 0xDA] := by
  intro appEui payload f m b
  have hb : BrokerPacket.ofFrame f m = .ok b := by
    decide +kernel
  have hm : ∀ x, m.freq = some x ∨ m.lsnr = some x → x.IsFinite :=
    Metadata.notFinite?_eq_none_iff.1 (by decide +kernel)
  have hl : m.write.length ≤ 65533 := by
    decide +kernel
  obtain ⟨p, data, h, a, hp, hi, -, -, -, hr, ha, hms, -, he⟩ :=
    radio_to_application appEui hb rfl hm hl
  cases hp
  cases hi
  exact ⟨hb, hl, h, a, hr, ha, hms, he⟩

end Tiers

end LoraRelay
