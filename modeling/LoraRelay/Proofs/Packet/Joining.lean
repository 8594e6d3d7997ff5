import LoraRelay.Proofs.Frame.Grammar
import LoraRelay.Proofs.Packet.Carrier

/-!
# Packets of the join procedure and their frames

A join packet is lifted out of the frame of a request, and an accept packet carries the frame
of an answer as bytes. What a frame is can be told by its message type or by its payload. A
reader goes by the type, the encoder and `JoinPacket.ofFrame` by the payload, and
`AcceptPacket.ofFrame` again by the type, so that a payload under another header is taken for
one thing here and for another there.

## The model

`Frame.decode_of_encode_iff` says what becomes of any payload under any header: the bytes of
the payload are read as the message type has it. What is known of the packets follows from
this and from which frames they are made of. `JoinPacket.request` is the request that a join
packet passes on.

## What is proved

* `AcceptPacket.carries_frame_iff` — the frame in an accept packet is read as it was exactly
  if its payload is an answer; `AcceptPacket.carried_frame_ne_self` is data under that header.
* `JoinPacket.lifted_from_request` — a join packet is lifted from every frame with a request
  in it, and the frame is a request on the air exactly if its header says so;
  `JoinPacket.lifted_from_data_message` is a request under the header of data.
* `JoinPacket.request_from_air_and_back` — a request keeps its identifiers and its nonce from
  the air to the packet, through its bytes, and back to the air.
-/

namespace LoraRelay

/-! ### Frames -/

namespace Frame

variable {f g : Frame} {d : Direction} {body bytes : Bytes} {r : JoinRequest}

/-- A frame is sent as its message type, the bytes of its payload, and its integrity code. -/
theorem encode_eq_ok_iff_append :
    f.encode = .ok bytes ↔
      ∃ body, f.encodePayload = .ok body ∧
        bytes = f.messageType.header :: (body ++ f.mic.toList) ∧ bytes.length ≤ maxLength := by
  simp only [encode_eq_ok_iff, signed_eq_ok_iff]
  constructor
  · rintro ⟨_, ⟨body, hb, rfl, hl⟩, rfl⟩
    refine ⟨body, hb, rfl, ?_⟩
    rwa [List.length_append, Octets.length_toList]
  · rintro ⟨body, hb, rfl, hl⟩
    rw [← List.cons_append, List.length_append, Octets.length_toList] at hl
    exact ⟨_, ⟨body, hb, rfl, hl⟩, rfl⟩

/-- **What is sent is read as the message type has it**, whatever the payload was. -/
theorem decode_of_encode_iff (hb : f.encodePayload = .ok body) (h : f.encode = .ok bytes) :
    decode d bytes = .ok g ↔
      ∃ p, Payload.decode f.messageType d body = .ok p ∧ g = ⟨f.messageType, some p, f.mic⟩ := by
  obtain ⟨_, hb', rfl, hl⟩ := encode_eq_ok_iff_append.1 h
  cases hb.symm.trans hb'
  rw [decode_eq_ok_iff]
  constructor
  · rintro ⟨header, body', m, p, mic, he, -, hm, hp, rfl⟩
    obtain ⟨rfl, hbody⟩ := List.cons.inj he
    obtain ⟨rfl, hmic⟩ := List.append_inj' hbody (by simp)
    rw [MessageType.ofHeader_header] at hm
    cases hm
    exact ⟨p, hp, by rw [Octets.ext hmic]⟩
  · rintro ⟨p, hp, rfl⟩
    exact ⟨_, body, _, p, f.mic, rfl, hl, MessageType.ofHeader_header _, hp, rfl⟩

theorem encodePayload_of_joinRequest (h : f.payload = some (.joinRequest r)) :
    f.encodePayload = .ok r.encode := by
  rw [encodePayload, h]
  rfl

theorem encode_of_joinRequest (h : f.payload = some (.joinRequest r)) :
    f.encode = .ok (f.messageType.header :: (r.encode ++ f.mic.toList)) := by
  refine encode_eq_ok_iff_append.2 ⟨r.encode, encodePayload_of_joinRequest h, rfl, ?_⟩
  simp [JoinRequest.length_encode, JoinRequest.length, maxLength]

end Frame

/-! ### Accept packets -/

namespace AcceptPacket

variable {f g : Frame} {appEui devEui : Eui} {key : Key} {p : AcceptPacket} {d : Direction}

/-- An accept packet is made of a frame of that message type that can be sent. -/
theorem ofFrame_eq_ok_iff :
    ofFrame f appEui devEui key = .ok p ↔
      f.messageType = .joinAccept ∧
        ∃ bytes, f.encode = .ok bytes ∧ p = ⟨⟨appEui, devEui, bytes⟩, key⟩ := by
  unfold ofFrame
  split
  · rename_i hm
    simp only [hm, true_and, bind_eq_ok_iff, mapError_eq_ok_iff, make_eq_ok_iff]
    constructor
    · rintro ⟨bytes, he, -, rfl⟩
      exact ⟨bytes, he, rfl⟩
    · rintro ⟨bytes, he, rfl⟩
      obtain ⟨body, -, rfl, -⟩ := Frame.encode_eq_ok_iff_append.1 he
      exact ⟨_, he, List.cons_ne_nil _ _, rfl⟩
  · rename_i hm
    simp [hm]

theorem exists_ofFrame_of_joinAccept {a : JoinAccept} (hm : f.messageType = .joinAccept)
    (hp : f.payload = some (.joinAccept a)) : ∃ p, ofFrame f appEui devEui key = .ok p := by
  have he : f.encodePayload = .ok a.encode := by
    rw [Frame.encodePayload, hp]
    rfl
  have hl := a.length_encode
  refine ⟨_, ofFrame_eq_ok_iff.2 ⟨hm, _, Frame.encode_eq_ok_iff_append.2 ⟨_, he, rfl, ?_⟩, rfl⟩⟩
  simp only [List.length_cons, List.length_append, Octets.length_toList, Frame.maxLength]
  omega

/-- What an accept packet carries is read as an answer, if the bytes of the payload are those
of one, and otherwise not at all. -/
theorem decode_payload_iff (h : ofFrame f appEui devEui key = .ok p) :
    Frame.decode d p.carrier.payload = .ok g ↔
      ∃ a, f.encodePayload = .ok (JoinAccept.encode a) ∧
        g = ⟨.joinAccept, some (.joinAccept a), f.mic⟩ := by
  obtain ⟨hm, bytes, he, rfl⟩ := ofFrame_eq_ok_iff.1 h
  obtain ⟨body, hb, -, -⟩ := Frame.encode_eq_ok_iff_append.1 he
  rw [Frame.decode_of_encode_iff hb he, hm, hb]
  constructor
  · rintro ⟨p, hp, rfl⟩
    obtain ⟨a, ha, rfl⟩ := map_eq_ok_iff.1 hp
    exact ⟨a, by rw [JoinAccept.encode_of_decode ha], rfl⟩
  · rintro ⟨a, ha, rfl⟩
    cases ha
    exact ⟨_, map_eq_ok_iff.2 ⟨a, JoinAccept.decode_encode a, rfl⟩, rfl⟩

theorem decode_payload_eq_self_iff (h : ofFrame f appEui devEui key = .ok p) :
    Frame.decode d p.carrier.payload = .ok f ↔ ∃ a, f.payload = some (.joinAccept a) := by
  rw [decode_payload_iff h]
  constructor
  · rintro ⟨a, -, hf⟩
    exact ⟨a, by rw [hf]⟩
  · rintro ⟨a, hp⟩
    obtain ⟨m, _, mic⟩ := f
    cases hp
    obtain rfl : m = .joinAccept := (ofFrame_eq_ok_iff.1 h).1
    exact ⟨a, rfl, rfl⟩

/-- **The frame in an accept packet is read as it was exactly if its payload is an answer.**
A packet is made of the frame of every answer, and of no frame with another message type. It
keeps the identifiers and the key. What is read of its payload is always an answer, with the
bytes that the payload of the frame was written as. -/
theorem carries_frame_iff (f : Frame) (appEui devEui : Eui) (key : Key) (d : Direction) :
    (∀ a, f.messageType = .joinAccept → f.payload = some (.joinAccept a) →
      ∃ p, ofFrame f appEui devEui key = .ok p) ∧
    ∀ p, ofFrame f appEui devEui key = .ok p →
      f.messageType = .joinAccept ∧
      p.carrier.appEui = appEui ∧ p.carrier.devEui = devEui ∧ p.sessionKey = key ∧
      (Frame.decode d p.carrier.payload = .ok f ↔ ∃ a, f.payload = some (.joinAccept a)) ∧
      ∀ g, Frame.decode d p.carrier.payload = .ok g →
        g.messageType = .joinAccept ∧ g.mic = f.mic ∧
          ∃ a, g.payload = some (.joinAccept a) ∧ f.encodePayload = .ok a.encode := by
  refine ⟨fun a hm hp => exists_ofFrame_of_joinAccept hm hp, fun p h => ?_⟩
  obtain ⟨hm, bytes, -, hp⟩ := ofFrame_eq_ok_iff.1 h
  refine ⟨hm, by rw [hp], by rw [hp], by rw [hp], decode_payload_eq_self_iff h, ?_⟩
  intro g hg
  obtain ⟨a, ha, rfl⟩ := (decode_payload_iff h).1 hg
  exact ⟨rfl, rfl, a, rfl, ha⟩

/-- An answer with frequencies of further channels. -/
theorem carries_frame_iff_channels :
    let a : JoinAccept :=
      ⟨⟨[1, 2, 3], rfl⟩, ⟨[4, 5, 6], rfl⟩, ⟨⟨[0x26, 0x01, 0x1B, 0xDA], rfl⟩⟩, 0x23, 1,
        some ⟨[0x18, 0x4F, 0x84, 0xE8, 0x56, 0x84, 0xB8, 0x5E, 0x84, 0x88, 0x66, 0x84, 0x58, 0x6E,
          0x84, 0], rfl⟩⟩
    let f : Frame := ⟨.joinAccept, some (.joinAccept a), ⟨[1, 2, 3, 4], rfl⟩⟩
    let appEui : Eui := ⟨⟨[1, 2, 3, 4, 5, 6, 7, 8], rfl⟩⟩
    let devEui : Eui := ⟨⟨[8, 7, 6, 5, 4, 3, 2, 1], rfl⟩⟩
    let key : Key := ⟨⟨[0, 1, 2, 3, 4, 5, 6, 7, 8, 9, 10, 11, 12, 13, 14, 15], rfl⟩⟩
    f.messageType = .joinAccept ∧ f.payload = some (.joinAccept a) ∧
      ∃ p, ofFrame f appEui devEui key = .ok p ∧ p.carrier.payload.length = 33 ∧
        Frame.decode .down p.carrier.payload = .ok f := by
  intro a f appEui devEui key
  obtain ⟨p, hp⟩ := (carries_frame_iff f appEui devEui key .down).1 a rfl rfl
  have hl : p.carrier.payload.length = 33 := by
    obtain ⟨-, bytes, he, rfl⟩ := ofFrame_eq_ok_iff.1 hp
    cases he
    rfl
  obtain ⟨-, -, -, -, hf, -⟩ := (carries_frame_iff f appEui devEui key .down).2 p hp
  exact ⟨rfl, rfl, p, hp, hl, hf.2 ⟨a, rfl⟩⟩

/-- Data under the header of an answer: twelve bytes that are carried, and read as an answer. -/
theorem carried_frame_ne_self :
    ¬ ∀ (f : Frame) (appEui devEui : Eui) (key : Key) (p : AcceptPacket),
      ofFrame f appEui devEui key = .ok p →
        Frame.decode .down p.carrier.payload = .ok f ∧ f.messageType = .joinAccept ∧
          ∃ a, f.payload = some (.joinAccept a) := by
  intro h
  let f : Frame :=
    ⟨.joinAccept, some (.data ⟨⟨⟨⟨[0x26, 0x01, 0x1B, 0xDA], rfl⟩⟩, ⟨false, false, true, false⟩, 42,
      []⟩, some 1, [.data [0x70, 0x69, 0x6E, 0x67]]⟩), ⟨[1, 2, 3, 4], rfl⟩⟩
  let eui : Eui := ⟨⟨[1, 2, 3, 4, 5, 6, 7, 8], rfl⟩⟩
  let key : Key := ⟨⟨[0, 1, 2, 3, 4, 5, 6, 7, 8, 9, 10, 11, 12, 13, 14, 15], rfl⟩⟩
  let bytes : Bytes :=
    [0x20, 0xDA, 0x1B, 0x01, 0x26, 0x20, 0x2A, 0, 1, 0x70, 0x69, 0x6E, 0x67, 1, 2, 3, 4]
  have hf : ofFrame f eui eui key = .ok ⟨⟨eui, eui, bytes⟩, key⟩ := by cbv
  obtain ⟨-, -, a, ha⟩ := h f eui eui key _ hf
  cases ha

end AcceptPacket

/-! ### Join packets -/

/-- The request that a join packet passes on. -/
def JoinPacket.request (p : JoinPacket) : JoinRequest := ⟨p.appEui, p.devEui, p.devNonce⟩

namespace JoinPacket

variable {f : Frame} {m : Metadata} {p : JoinPacket} {e : PacketError} {d : Direction}
  {bytes : Bytes}

/-- A join packet is lifted from a frame exactly if its payload is the request. -/
theorem ofFrame_eq_ok_iff :
    ofFrame f m = .ok p ↔ f.payload = some (.joinRequest p.request) ∧ p.metadata = m := by
  obtain ⟨appEui, devEui, nonce, metadata⟩ := p
  unfold ofFrame
  split
  · rename_i r hr
    obtain ⟨appEui', devEui', nonce'⟩ := r
    simp [hr, request, and_assoc, eq_comm (a := m)]
  · rename_i hr
    refine iff_of_false nofun ?_
    rintro ⟨hp, -⟩
    exact hr _ hp

theorem ofFrame_eq_error_iff :
    ofFrame f m = .error e ↔ (∀ r, f.payload ≠ some (.joinRequest r)) ∧ e = .notJoinRequest := by
  unfold ofFrame
  split
  · rename_i r hr
    simp [hr]
  · rename_i hr
    rw [Except.error.injEq, eq_comm, iff_and_self]
    exact fun _ => hr

/-- A frame with a request in it is read as that request exactly if its header says so. -/
theorem exists_decode_request_iff {sent : Bytes} {r : JoinRequest}
    (hp : f.payload = some (.joinRequest r)) (he : f.encode = .ok sent) :
    (∃ g, Frame.decode d sent = .ok g ∧ g.messageType = .joinRequest ∧
      g.payload = some (.joinRequest r)) ↔ f.messageType = .joinRequest := by
  have hb := Frame.encodePayload_of_joinRequest hp
  constructor
  · rintro ⟨g, hg, hm, -⟩
    obtain ⟨_, -, rfl⟩ := (Frame.decode_of_encode_iff hb he).1 hg
    exact hm
  · intro hm
    refine ⟨⟨f.messageType, some (.joinRequest r), f.mic⟩, ?_, hm, rfl⟩
    refine (Frame.decode_of_encode_iff hb he).2 ⟨_, ?_, rfl⟩
    rw [hm, Payload.decode, JoinRequest.decode_encode]
    rfl

/-- **A join packet is lifted from every frame with a request in it**, whatever the header,
and every other frame is refused as structural. A frame that a packet was lifted from can be
sent, and is read as a message with the request of the packet exactly if its header is that
of a request. -/
theorem lifted_from_request (f : Frame) (m : Metadata) :
    ((∃ p, ofFrame f m = .ok p) ↔ ∃ r, f.payload = some (.joinRequest r)) ∧
    (∀ e, ofFrame f m = .error e → e.kind = .structural) ∧
    ∀ p, ofFrame f m = .ok p → ∃ sent, f.encode = .ok sent ∧
      ((∃ g, Frame.decode .up sent = .ok g ∧ g.messageType = .joinRequest ∧
          g.payload = some (.joinRequest p.request)) ↔ f.messageType = .joinRequest) := by
  refine ⟨⟨?_, ?_⟩, ?_, ?_⟩
  · rintro ⟨p, h⟩
    exact ⟨p.request, (ofFrame_eq_ok_iff.1 h).1⟩
  · rintro ⟨r, hr⟩
    exact ⟨⟨r.appEui, r.devEui, r.devNonce, m⟩, ofFrame_eq_ok_iff.2 ⟨hr, rfl⟩⟩
  · intro e h
    rw [(ofFrame_eq_error_iff.1 h).2]
    rfl
  · intro p h
    have hp := (ofFrame_eq_ok_iff.1 h).1
    have he := Frame.encode_of_joinRequest hp
    exact ⟨_, he, exists_decode_request_iff hp he⟩

/-- A request under its own header. -/
theorem lifted_from_request_uplink :
    let r : JoinRequest :=
      ⟨⟨⟨[1, 2, 3, 4, 5, 6, 7, 8], rfl⟩⟩, ⟨⟨[8, 7, 6, 5, 4, 3, 2, 1], rfl⟩⟩, ⟨[0xA1, 0xA2], rfl⟩⟩
    let f : Frame := ⟨.joinRequest, some (.joinRequest r), ⟨[1, 2, 3, 4], rfl⟩⟩
    let p : JoinPacket := ⟨r.appEui, r.devEui, r.devNonce, .empty⟩
    ofFrame f .empty = .ok p ∧ ∃ sent, f.encode = .ok sent ∧
      ∃ g, Frame.decode .up sent = .ok g ∧ g.messageType = .joinRequest ∧
        g.payload = some (.joinRequest p.request) := by
  intro r f p
  have h : ofFrame f .empty = .ok p := rfl
  obtain ⟨sent, he, hd⟩ := (lifted_from_request f .empty).2.2 p h
  exact ⟨h, sent, he, hd.2 rfl⟩

/-- A request under the header of data: a packet is lifted from it, and on the air it is data
for port one. -/
theorem lifted_from_data_message :
    ¬ ∀ (f : Frame) (m : Metadata) (p : JoinPacket), ofFrame f m = .ok p →
      ∃ sent g, f.encode = .ok sent ∧ Frame.decode .up sent = .ok g ∧
        g.messageType = .joinRequest ∧ g.payload = some (.joinRequest p.request) := by
  intro h
  let r : JoinRequest :=
    ⟨⟨⟨[0x01, 0, 0, 0, 0x26, 0x01, 0x1B, 0xDA], rfl⟩⟩,
      ⟨⟨[0x11, 0x12, 0x13, 0x14, 0x15, 0x16, 0x17, 0x18], rfl⟩⟩, ⟨[0xA1, 0xA2], rfl⟩⟩
  let f : Frame := ⟨.unconfirmedDataUp, some (.joinRequest r), ⟨[1, 2, 3, 4], rfl⟩⟩
  obtain ⟨sent, g, he, hg, hm, -⟩ := h f .empty ⟨r.appEui, r.devEui, r.devNonce, .empty⟩ rfl
  obtain ⟨_, -, rfl⟩ := (Frame.decode_of_encode_iff (f := f) rfl he).1 hg
  cases hm

theorem decode_of_encode (h : p.encode = .ok bytes) :
    decode bytes = .ok ⟨p.appEui, p.devEui, p.devNonce, .empty⟩ :=
  decode_eq_ok_iff.2 ⟨rfl, h⟩

end JoinPacket

/-! ### From the air and back -/

theorem Frame.exists_request_of_decode {f : Frame} {d : Direction} {bytes : Bytes}
    (h : decode d bytes = .ok f) (hm : f.messageType = .joinRequest) :
    ∃ first r, bytes = first :: (r.encode ++ f.mic.toList) ∧ f.payload = some (.joinRequest r) ∧
      MessageType.joinRequest.header = first &&& ~~~0x1C := by
  obtain ⟨first, body, _, p, mic, rfl, -, hh, hp, rfl⟩ := decode_eq_ok_iff.1 h
  obtain rfl := hm
  obtain ⟨r, hr, rfl⟩ := map_eq_ok_iff.1 hp
  exact ⟨first, r, by rw [JoinRequest.encode_of_decode hr], rfl,
    (MessageType.header_of_ofHeader hh).1⟩

theorem Frame.extract_request (first : UInt8) (r : JoinRequest) (mic : Mic) :
    let frame := first :: (r.encode ++ mic.toList)
    frame.extract 1 9 = r.appEui.toWire.toList ∧ frame.extract 9 17 = r.devEui.toWire.toList ∧
      frame.extract 17 19 = r.devNonce.toList ∧ frame.extract 19 23 = mic.toList := by
  intro frame
  obtain ⟨appEui, devEui, nonce⟩ := r
  have hframe : frame = [first] ++ (appEui.toWire.toList ++
      (devEui.toWire.toList ++ (nonce.toList ++ (mic.toList ++ [])))) := by
    simp [frame, JoinRequest.encode]
  rw [hframe]
  refine ⟨extract_append rfl (by simp) _, ?_, ?_, ?_⟩
  · rw [← List.append_assoc]
    exact extract_append (by simp) (by simp) _
  · rw [← List.append_assoc, ← List.append_assoc]
    exact extract_append (by simp) (by simp) _
  · rw [← List.append_assoc, ← List.append_assoc, ← List.append_assoc]
    exact extract_append (by simp) (by simp) _

namespace JoinPacket

/-- **A request keeps its identifiers and its nonce** from the air to the packet and back. The
packet of a frame that was read as a request has the identifiers that stand in the frame, in
the opposite order of bytes, and the nonce as it stands there. They are the same once the
packet has been written and read. A frame made of them again, with the integrity code of the
first, is sent as the bytes that were received, but for the three bits of the first byte that
mean nothing. -/
theorem request_from_air_and_back {bytes : Bytes} {d : Direction} {f : Frame}
    (h : Frame.decode d bytes = .ok f) (hm : f.messageType = .joinRequest) (m : Metadata) :
    ∃ p sent q, ofFrame f m = .ok p ∧ p.encode = .ok sent ∧ decode sent = .ok q ∧
      p.appEui.bytes.toList = (bytes.extract 1 9).reverse ∧
      p.devEui.bytes.toList = (bytes.extract 9 17).reverse ∧
      p.devNonce.toList = bytes.extract 17 19 ∧
      q.appEui = p.appEui ∧ q.devEui = p.devEui ∧ q.devNonce = p.devNonce ∧
      ∃ mic : Mic, mic.toList = bytes.extract 19 23 ∧
        Frame.encode ⟨.joinRequest, some (.joinRequest q.request), mic⟩ =
          .ok (bytes.modifyHead (· &&& ~~~0x1C)) := by
  obtain ⟨first, r, rfl, hp, hh⟩ := Frame.exists_request_of_decode h hm
  obtain ⟨happ, hdev, hnonce, hmic⟩ := Frame.extract_request first r f.mic
  let p : JoinPacket := ⟨r.appEui, r.devEui, r.devNonce, m⟩
  obtain ⟨sent, hs⟩ := p.exists_encode
  refine ⟨p, sent, _, ofFrame_eq_ok_iff.2 ⟨hp, rfl⟩, hs, decode_of_encode hs, ?_, ?_, hnonce.symm,
    rfl, rfl, rfl, f.mic, hmic.symm, ?_⟩
  · rw [happ, Eui.toWire, Octets.toList_reverse, List.reverse_reverse]
  · rw [hdev, Eui.toWire, Octets.toList_reverse, List.reverse_reverse]
  · rw [Frame.encode_of_joinRequest rfl, hh]
    rfl

/-- A request with all three bits of the first byte set that mean nothing, read against its
direction. -/
theorem request_from_air_and_back_downlink :
    let bytes : Bytes :=
      [0x1C, 8, 7, 6, 5, 4, 3, 2, 1, 0x18, 0x17, 0x16, 0x15, 0x14, 0x13, 0x12, 0x11, 0xA1, 0xA2,
        1, 2, 3, 4]
    let appEui : Eui := ⟨⟨[1, 2, 3, 4, 5, 6, 7, 8], rfl⟩⟩
    let devEui : Eui := ⟨⟨[0x11, 0x12, 0x13, 0x14, 0x15, 0x16, 0x17, 0x18], rfl⟩⟩
    let f : Frame :=
      ⟨.joinRequest, some (.joinRequest ⟨appEui, devEui, ⟨[0xA1, 0xA2], rfl⟩⟩), ⟨[1, 2, 3, 4], rfl⟩⟩
    Frame.decode .down bytes = .ok f ∧ f.messageType = .joinRequest ∧
      ∃ p sent q, ofFrame f .empty = .ok p ∧ p.encode = .ok sent ∧ decode sent = .ok q ∧
        p.appEui = appEui ∧ q.devEui = devEui ∧ q.devNonce.toList = [0xA1, 0xA2] ∧
        ∃ mic : Mic, mic.toList = [1, 2, 3, 4] ∧
          Frame.encode ⟨.joinRequest, some (.joinRequest q.request), mic⟩ =
            .ok (0 :: bytes.drop 1) := by
  intro bytes appEui devEui f
  have h : Frame.decode .down bytes = .ok f := by cbv
  obtain ⟨p, sent, q, hp, hs, hq, happ, hdev, hnonce, hqapp, hqdev, hqnonce, mic, hmic, he⟩ :=
    request_from_air_and_back h rfl .empty
  refine ⟨h, rfl, p, sent, q, hp, hs, hq, ?_, ?_, ?_, mic, hmic, he⟩
  · exact Eui.ext (Octets.ext happ)
  · rw [hqdev]
    exact Eui.ext (Octets.ext hdev)
  · rw [hqnonce]
    exact hnonce

end JoinPacket

end LoraRelay
