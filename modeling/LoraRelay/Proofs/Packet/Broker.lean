import LoraRelay.Packet.Broker
import LoraRelay.Proofs.Router.Travel

/-!
# Broker packets

A broker packet is a router packet with one block of application data. Here is for which
router packets there is one, how long its data can be, and that a packet that was made of a
frame is read back from what it is written as.

## What is proved

* `BrokerPacket.ofRouter_eq_ok_iff` — which router packets can be narrowed.
* `BrokerPacket.length_payload_of_ofFrame` — the data are as short as the frame.
* `BrokerPacket.exists_encode_of_ofFrame` and `BrokerPacket.decode_of_encode` — a data packet
  with good metadata is written, and read back.
-/

namespace LoraRelay

/-! ### The length of a block of data -/

theorem DataPayload.length_data_le_of_encode {p : DataPayload} {d : Direction}
    {bytes data : Bytes} (h : p.encode d = .ok bytes) (hi : p.items = [.data data]) :
    data.length ≤ bytes.length := by
  obtain ⟨header, -, ⟨-, hn, -⟩ | ⟨port, rest, -, hr, rfl⟩⟩ := encode_eq_ok_iff.1 h
  · rw [hi] at hn
    cases hn
  · rw [hi, PortItem.encodeFor] at hr
    split at hr
    · cases hr
    · have hd := PortItem.encodeData_eq_ok_iff.1 hr
      split at hd
      · cases hd
      · cases hd
        simp only [List.length_append, List.length_cons]
        omega

theorem Frame.length_data_le_of_encode {f : Frame} {p : DataPayload} {sent data : Bytes}
    (h : f.encode = .ok sent) (hp : f.payload = some (.data p)) (hi : p.items = [.data data]) :
    data.length ≤ maxLength := by
  obtain ⟨message, hs, rfl⟩ := encode_eq_ok_iff.1 h
  obtain ⟨body, hb, rfl, hl⟩ := signed_eq_ok_iff.1 hs
  simp only [encodePayload, hp, Payload.encode] at hb
  split at hb
  · have hd := DataPayload.length_data_le_of_encode hb hi
    rw [List.length_cons] at hl
    omega
  · cases hb

namespace BrokerPacket

variable {f : Frame} {m : Metadata} {p : RouterPacket} {b : BrokerPacket} {bytes : Bytes}

/-! ### Narrowing -/

/-- **Which router packets can be narrowed**: those with one block of data that is not empty,
on a port other than zero. -/
theorem ofRouter_eq_ok_iff :
    ofRouter p = .ok b ↔
      (∃ data, p.payload.items = [.data data] ∧ data ≠ []) ∧
        (∃ port, p.payload.port = some port ∧ port ≠ 0) ∧ b = ⟨p⟩ := by
  constructor
  · intro h
    unfold ofRouter at h
    split at h
    · rename_i data hi
      split at h
      · cases h
      · rename_i hn
        split at h
        · rename_i port hp
          split at h
          · cases h
          · rename_i hz
            cases h
            exact ⟨⟨data, hi, hn⟩, ⟨port, hp, hz⟩, rfl⟩
        · cases h
    · cases h
    · cases h
  · rintro ⟨⟨data, hi, hn⟩, ⟨port, hp, hz⟩, rfl⟩
    simp only [ofRouter, hi, hp, if_neg hn, if_neg hz]

theorem payload_eq {data : Bytes} (h : b.router.payload.items = [.data data]) :
    b.payload = data := by
  rw [payload, h]

/-- A router packet that is narrowed stays what it is. -/
theorem bind_ofRouter_eq_ok_iff {x : Except PacketError RouterPacket} :
    x >>= ofRouter = .ok b ↔ x = .ok b.router ∧ ofRouter b.router = .ok b := by
  rw [bind_eq_ok_iff]
  constructor
  · rintro ⟨p, hp, hb⟩
    obtain rfl := router_of_ofRouter hb
    exact ⟨hp, hb⟩
  · rintro ⟨hp, hb⟩
    exact ⟨b.router, hp, hb⟩

/-- The packet of a frame is the narrowed router packet of it. -/
theorem ofFrame_eq_ok_iff :
    ofFrame f m = .ok b ↔ RouterPacket.ofFrame f m = .ok b.router ∧ ofRouter b.router = .ok b :=
  bind_ofRouter_eq_ok_iff

/-- The packet with given bytes is the narrowed router packet with these bytes. -/
theorem decode_eq_ok_iff :
    decode bytes = .ok b ↔
      RouterPacket.decode bytes = .ok b.router ∧ ofRouter b.router = .ok b :=
  bind_ofRouter_eq_ok_iff

/-! ### Packets of data frames -/

theorem length_payload_of_ofFrame (h : ofFrame f m = .ok b) (hd : f.messageType.isData = true) :
    b.payload.length ≤ Frame.maxLength := by
  obtain ⟨hp, hb⟩ := ofFrame_eq_ok_iff.1 h
  obtain ⟨⟨data, hi, -⟩, -, -⟩ := ofRouter_eq_ok_iff.1 hb
  obtain ⟨hs, -, -, rfl, -⟩ := RouterPacket.ofFrame_eq_ok_iff.1 hp
  obtain ⟨sent, hs⟩ := hs hd
  rw [payload_eq hi]
  exact Frame.length_data_le_of_encode hs rfl hi

/-- A packet of a data frame is written if all numbers are finite and the text of the metadata
is short enough. -/
theorem exists_encode_of_ofFrame (h : ofFrame f m = .ok b) (hd : f.messageType.isData = true)
    (hm : m.notFinite? = none) (hl : m.write.length ≤ Field.maxLength) :
    ∃ bytes, b.encode = .ok bytes := by
  obtain ⟨hp, -⟩ := ofFrame_eq_ok_iff.1 h
  obtain ⟨rfl, rfl⟩ := RouterPacket.frame_of_ofFrame hp
  cases he : b.encode with
  | ok bytes => exact ⟨bytes, rfl⟩
  | error e =>
    rcases (RouterPacket.encode_eq_error_iff_of_isData hp hd).1 he with ⟨key, hk, -⟩ | ⟨-, hlt, -⟩
    · rw [hm] at hk
      cases hk
    · exact absurd hl (Nat.not_le.2 hlt)

theorem decode_of_encode (h : ofFrame f m = .ok b) (he : b.encode = .ok bytes) :
    decode bytes = .ok b := by
  obtain ⟨hp, hb⟩ := ofFrame_eq_ok_iff.1 h
  exact decode_eq_ok_iff.2 ⟨RouterPacket.decode_of_encode hp he, hb⟩

end BrokerPacket

end LoraRelay
