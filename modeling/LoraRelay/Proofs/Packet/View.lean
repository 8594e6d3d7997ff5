import LoraRelay.Proofs.Frame.Fields
import LoraRelay.Proofs.Packet.Narrowing

/-!
# What a broker sees of a frame

Between a frame on the air and what a broker reads off its packet lie the reader of the
frame, the check that the frame can be sent, and narrowing. Together they come to one
condition on the bytes, and what the broker reads are bytes of the frame.

## The model

The fields stand where `Frame.Fields` says. A frame that was read in the direction of its
message type is always a router packet, which leaves narrowing to refuse it.

## What is proved

* `Frame.Fields.isApplication_iff` and `Frame.Fields.items_eq` — which bytes hold something for
  an application, and what it is.
* `BrokerPacket.view_is_wire` — for which bytes there is a broker packet, and what it shows.
-/

namespace LoraRelay

variable {d : Direction} {bytes : Bytes} {f : Frame} {p : DataPayload}

/-! ### Bytes for an application -/

namespace Frame.Fields

/-- A payload with a port was longer than its header, and has what was sent to the port. -/
theorem of_port {port : UInt8} (h : Fields d bytes p) (hp : p.port = some port) :
    12 + announced bytes < bytes.length ∧ bytes[8 + announced bytes]? = some port ∧
      PortItem.decodeFor d port (bytes.extract (9 + announced bytes) (bytes.length - 4)) =
        .ok p.items := by
  by_cases hl : bytes.length = 12 + announced bytes
  · obtain ⟨hn, -⟩ := h.no_port hl
    rw [hn] at hp
    cases hp
  · have hl : 12 + announced bytes < bytes.length := by
      have := h.length_ge
      omega
    obtain ⟨q, hb, hq, hi⟩ := h.on_port hl
    obtain rfl : q = port := Option.some.inj (hq.symm.trans hp)
    exact ⟨hl, hb, hi⟩

/-- What is sent to the port of an application are the bytes between the port and the code. -/
theorem items_eq {port : UInt8} (h : Fields d bytes p) (hp : p.port = some port) (hz : port ≠ 0) :
    p.items = if bytes.length ≤ 13 + announced bytes then []
      else [.data (bytes.extract (9 + announced bytes) (bytes.length - 4))] := by
  obtain ⟨hl, -, hi⟩ := h.of_port hp
  have hempty : bytes.extract (9 + announced bytes) (bytes.length - 4) = [] ↔
      bytes.length ≤ 13 + announced bytes := by
    simp
    omega
  rw [PortItem.decodeFor, if_neg hz] at hi
  simp only [hempty] at hi
  exact (Except.ok.inj hi).symm

/-- **Which bytes hold something for an application**: those with a port that is not zero, and
with something between it and the code. -/
theorem isApplication_iff (h : Fields d bytes p) :
    p.IsApplication ↔
      13 + announced bytes < bytes.length ∧ bytes.getD (8 + announced bytes) 0 ≠ 0 := by
  constructor
  · intro ha
    obtain ⟨port, hp, hpos⟩ := ha.on_port
    have hz := UInt8.pos_iff_ne_zero.1 hpos
    obtain ⟨-, hb, -⟩ := h.of_port hp
    refine ⟨?_, ?_⟩
    · by_contra hl
      have hi := h.items_eq hp hz
      rw [if_pos (Nat.not_lt.1 hl)] at hi
      exact ha.items_ne_nil hi
    · rw [List.getD_eq_getElem?_getD, hb]
      exact hz
  · rintro ⟨hl, hz⟩
    obtain ⟨port, hb, hp, -⟩ := h.on_port (by omega)
    rw [List.getD_eq_getElem?_getD, hb] at hz
    have hi := h.items_eq hp hz
    rw [if_neg (Nat.not_le.2 hl)] at hi
    exact ⟨⟨port, hp, UInt8.pos_iff_ne_zero.2 hz⟩, by simp [hi]⟩

theorem items_eq_of_isApplication (h : Fields d bytes p) (ha : p.IsApplication) :
    p.items = [.data (bytes.extract (9 + announced bytes) (bytes.length - 4))] := by
  obtain ⟨port, hp, hpos⟩ := ha.on_port
  have hl := (h.isApplication_iff.1 ha).1
  rw [h.items_eq hp (UInt8.pos_iff_ne_zero.1 hpos), if_neg (Nat.not_le.2 hl)]

end Frame.Fields

/-! ### Packets of frames in their direction -/

theorem RouterPacket.ofFrame_of_decode_data (h : Frame.decode d bytes = .ok f)
    (hp : f.payload = some (.data p)) (hm : f.messageType.isData = true)
    (hd : f.messageType.direction? = some d) (m : Metadata) :
    ofFrame f m = .ok ⟨f.messageType, p, f.mic, m⟩ := by
  refine (ofFrame_of_decode_iff h).2 ⟨hm, .inl hd, ?_, rfl⟩
  rw [frame, ← hp]

namespace BrokerPacket

variable {b : BrokerPacket}

/-- The device is shown as four zero bytes and the address, which is sent backwards. -/
theorem devEui_of_fields (h : Frame.Fields d bytes b.router.payload) :
    b.devEui.bytes.toList =
      [0, 0, 0, 0, bytes.getD 4 0, bytes.getD 3 0, bytes.getD 2 0, bytes.getD 1 0] := by
  show [0, 0, 0, 0] ++ b.router.payload.header.address.bytes.toList = _
  rw [h.header.address]
  rfl

/-- **The broker's view is the wire.** For a data frame of direction `d`, read in this direction
and with any metadata, there is a broker packet exactly if the frame is longer than its header
with `n` bytes of commands, a port and a code, and the port is not zero. Then the data, the
counter, the commands, the device and the code are what stands in the frame. -/
theorem view_is_wire (h : Frame.decode d bytes = .ok f)
    (hm : (MessageType.ofTopBits (bytes.getD 0 0)).isData = true)
    (hd : (MessageType.ofTopBits (bytes.getD 0 0)).direction? = some d) (m : Metadata) :
    let n := Frame.announced bytes
    ((∃ b, ofFrame f m = .ok b) ↔ 13 + n < bytes.length ∧ bytes.getD (8 + n) 0 ≠ 0) ∧
    ∀ b, ofFrame f m = .ok b →
      b.payload = bytes.extract (9 + n) (bytes.length - 4) ∧
      b.counter.toNat = (bytes.getD 6 0).toNat + 256 * (bytes.getD 7 0).toNat ∧
      Command.decodeAll d (bytes.extract 8 (8 + n)) = .ok b.commands ∧
      b.devEui.bytes.toList =
        [0, 0, 0, 0, bytes.getD 4 0, bytes.getD 3 0, bytes.getD 2 0, bytes.getD 1 0] ∧
      b.router.mic.toList = bytes.drop (bytes.length - 4) ∧
      b.metadata = m := by
  intro n
  obtain ⟨p, ht, hp, hmic, hf⟩ := Frame.exists_fields_of_decode h hm
  have hr := RouterPacket.ofFrame_of_decode_data h hp (ht ▸ hm) (ht ▸ hd) m
  obtain ⟨_, hs⟩ := (RouterPacket.wellFormed_of_ofFrame hr).exists_sendable (ht ▸ hm)
  have hb : ofFrame f m = ofRouter ⟨f.messageType, p, f.mic, m⟩ := by
    rw [ofFrame, hr]
    rfl
  have hn := exists_ofRouter_iff_of_sendable hs
  rw [hb]
  refine ⟨hn.trans hf.isApplication_iff, ?_⟩
  intro b hb
  have hi := hf.items_eq_of_isApplication (hn.1 ⟨b, hb⟩)
  obtain ⟨_⟩ := b
  obtain rfl := router_of_ofRouter hb
  exact ⟨payload_eq hi, hf.header.counter, hf.header.options, devEui_of_fields hf, hmic, rfl⟩

/-- A downlink with a command in its header and data, and one with a command on port zero, both
with reserved bits set in their first byte. -/
theorem view_is_wire_downlinks :
    let address : DevAddr := ⟨⟨[0x26, 0x01, 0x1B, 0xDA], rfl⟩⟩
    let control : FrameControl := ⟨true, false, true, false⟩
    let app : Frame :=
      ⟨.confirmedDataDown, some (.data ⟨⟨address, control, 0x012A, [.devStatusReq]⟩, some 1,
        [.data [0xCA, 0xFE]]⟩), ⟨[1, 2, 3, 4], rfl⟩⟩
    let mac : Frame :=
      ⟨.confirmedDataDown, some (.data ⟨⟨address, control, 0x012A, []⟩, some 0,
        [.command .devStatusReq]⟩), ⟨[1, 2, 3, 4], rfl⟩⟩
    let bytes : Bytes :=
      [0xBC, 0xDA, 0x1B, 0x01, 0x26, 0xA1, 0x2A, 0x01, 0x06, 0x01, 0xCA, 0xFE, 1, 2, 3, 4]
    let macBytes : Bytes :=
      [0xBC, 0xDA, 0x1B, 0x01, 0x26, 0xA0, 0x2A, 0x01, 0x00, 0x06, 1, 2, 3, 4]
    (Frame.decode .down bytes = .ok app ∧ ∃ b, ofFrame app .empty = .ok b ∧
      b.payload = [0xCA, 0xFE] ∧ b.counter.toNat = 0x012A ∧ b.commands = [.devStatusReq] ∧
      b.devEui.bytes.toList = [0, 0, 0, 0, 0x26, 0x01, 0x1B, 0xDA] ∧
      b.router.mic.toList = [1, 2, 3, 4]) ∧
    Frame.decode .down macBytes = .ok mac ∧ ¬ ∃ b, ofFrame mac .empty = .ok b := by
  intro address control app mac bytes macBytes
  constructor
  · have h : Frame.decode .down bytes = .ok app := by cbv
    obtain ⟨hok, hview⟩ := view_is_wire h (by decide) (by decide) .empty
    obtain ⟨b, hb⟩ := hok.2 (by decide)
    obtain ⟨hp, hc, ho, he, hmic, -⟩ := hview b hb
    have hcs : Command.decodeAll .down (bytes.extract 8 (8 + Frame.announced bytes)) =
        .ok [.devStatusReq] := by cbv
    have hcommands : b.commands = [.devStatusReq] := Except.ok.inj (ho.symm.trans hcs)
    exact ⟨h, b, hb, hp.trans (by decide), hc, hcommands, he, hmic⟩
  · have h : Frame.decode .down macBytes = .ok mac := by cbv
    refine ⟨h, ?_⟩
    rw [(view_is_wire h (by decide) (by decide) .empty).1]
    decide

end BrokerPacket

end LoraRelay
