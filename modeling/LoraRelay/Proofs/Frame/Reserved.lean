import LoraRelay.Proofs.Command.Reserved
import LoraRelay.Proofs.Frame.RoundTrip
import Mathlib.Data.List.Basic

/-!
# Reserved bits of frames

A frame that was read can be sent on. What is sent differs from what was received
only where bits mean nothing: three bits of the first byte and the reserved bits of
the bodies of commands, in the header and on port zero. These are sent as zeros.

## The model

`Frame.reserved` is the mask of those bits. It is computed from the bytes by their
positions and does not use the decoder: the commands of the header begin at byte 8
and their number of bytes is the low nibble of byte 5, the port comes next, and the
last four bytes are the integrity code.
-/

namespace LoraRelay

/-! ### The masks -/

/-- The reserved bits of a port and of what is sent to it. -/
def PortItem.reserved (d : Direction) : Bytes → Bytes
  | [] => []
  | port :: rest => 0 :: if port = 0 then Command.reserved d rest else kept rest

/-- The reserved bits of a data payload. -/
def DataPayload.reserved (d : Direction) (bytes : Bytes) : Bytes :=
  let length := FrameControl.optionsLength (bytes.getD 4 0)
  kept (bytes.take 7) ++ Command.reserved d ((bytes.drop 7).take length) ++
    PortItem.reserved d (bytes.drop (7 + length))

/-- The reserved bits of the payload of a message. -/
def Payload.reserved (m : MessageType) (d : Direction) (bytes : Bytes) : Bytes :=
  if m.isData then DataPayload.reserved d bytes else kept bytes

/-- The reserved bits of a frame. -/
def Frame.reserved (d : Direction) : Bytes → Bytes
  | [] => []
  | header :: rest =>
    0x1C :: (Payload.reserved (.ofTopBits header) d (rest.take (rest.length - 4)) ++
      kept (rest.drop (rest.length - 4)))

/-- The bytes are of a message that may travel in direction `d`. -/
def Frame.MayTravel (bytes : Bytes) (d : Direction) : Prop :=
  ∀ header ∈ bytes.head?, (MessageType.ofTopBits header).MayTravel d

@[simp] theorem PortItem.length_reserved (d : Direction) (bytes : Bytes) :
    (reserved d bytes).length = bytes.length := by
  cases bytes with
  | nil => rfl
  | cons port rest =>
    simp only [reserved]
    split <;> simp

theorem DataPayload.length_reserved (d : Direction) (bytes : Bytes) :
    (reserved d bytes).length = bytes.length := by
  simp [reserved]
  omega

theorem Payload.length_reserved (m : MessageType) (d : Direction) (bytes : Bytes) :
    (reserved m d bytes).length = bytes.length := by
  unfold reserved
  split
  · exact DataPayload.length_reserved d bytes
  · exact length_kept bytes

theorem Frame.length_reserved (d : Direction) (bytes : Bytes) :
    (reserved d bytes).length = bytes.length := by
  cases bytes with
  | nil => rfl
  | cons header rest =>
    simp [reserved, Payload.length_reserved]

theorem Frame.reserved_cons_append (d : Direction) (header : UInt8) (body : Bytes) (mic : Mic) :
    reserved d (header :: (body ++ mic.toList)) =
      0x1C :: (Payload.reserved (.ofTopBits header) d body ++ kept mic.toList) := by
  simp [reserved]

/-! ### The first byte -/

/-- The header of a message that was read is its first byte without the bits between
type and version. -/
theorem MessageType.header_of_ofHeader {b : UInt8} {m : MessageType} (h : ofHeader b = .ok m) :
    m.header = b &&& ~~~0x1C ∧ m = ofTopBits b := by
  obtain ⟨hb, rfl⟩ := ofHeader_eq_ok_iff.1 h
  have key : ∀ b : UInt8, b % 4 = 0 → (ofTopBits b).header = b &&& ~~~0x1C :=
    forall_byte (by decide +kernel)
  exact ⟨key b hb, rfl⟩

/-! ### Data payloads -/

theorem FrameControl.toByte_ofByte (b : UInt8) : (ofByte b).toByte (optionsLength b) = b := by
  revert b
  exact forall_byte (by decide +kernel)

theorem FrameControl.optionsLength_le (b : UInt8) : optionsLength b ≤ 15 := by
  revert b
  exact forall_byte (by decide +kernel)

theorem toUInt16_toUInt32 (w : UInt16) : w.toUInt32.toUInt16 = w := by
  apply UInt16.toNat_inj.1
  simp

theorem FrameHeader.encode_of_decodeAll {d : Direction} {control : UInt8} {options : Bytes}
    {cs : List Command} (hl : options.length = FrameControl.optionsLength control)
    (hcs : Command.decodeAll d options = .ok cs) (address : Octets 4) (lo hi : UInt8) :
    encode ⟨.ofWire address, .ofByte control, (ofLe16 lo hi).toUInt32, cs⟩ d =
      .ok (address.toList ++ control :: lo :: hi ::
        clear (Command.reserved d options) options) := by
  have hc : (clear (Command.reserved d options) options).length =
      FrameControl.optionsLength control := by
    rw [length_clear (Command.length_reserved d options), hl]
  refine encode_eq_ok_iff.2 ⟨_, Command.encodeAll_of_decodeAll hcs, ?_, ?_⟩
  · rw [hc]
    exact FrameControl.optionsLength_le control
  · rw [hc, FrameControl.toByte_ofByte, DevAddr.toWire_ofWire, toUInt16_toUInt32, le16_ofLe16]
    simp

theorem PortItem.encodeFor_of_decodeFor {d : Direction} {port : UInt8} {bytes : Bytes}
    {items : List PortItem} (h : decodeFor d port bytes = .ok items) :
    encodeFor d port items =
      .ok (clear (if port = 0 then Command.reserved d bytes else kept bytes) bytes) := by
  unfold decodeFor at h
  unfold encodeFor
  split
  · rw [if_pos ‹_›] at h
    obtain ⟨cs, hcs, rfl⟩ := map_eq_ok_iff.1 h
    exact encodeCommands_eq_ok_iff.2 ⟨cs, rfl, Command.encodeAll_of_decodeAll hcs⟩
  · rw [if_neg ‹_›] at h
    cases h
    rw [clear_kept]
    exact encodeData_eq_ok_iff.2 rfl

namespace DataPayload

/-- Address, flags and counter of a payload have no reserved bits: only the commands
and what is sent to a port can change. -/
theorem clear_reserved {control : UInt8} {options : Bytes}
    (hl : options.length = FrameControl.optionsLength control) (d : Direction)
    (address : Octets 4) (lo hi : UInt8) (rest : Bytes) :
    clear (reserved d (address.toList ++ control :: lo :: hi :: (options ++ rest)))
        (address.toList ++ control :: lo :: hi :: (options ++ rest)) =
      address.toList ++ control :: lo :: hi :: clear (Command.reserved d options) options ++
        clear (PortItem.reserved d rest) rest := by
  obtain ⟨a, b, c, e, ha⟩ := List.length_eq_four.1 address.length_toList
  have hm : reserved d (address.toList ++ control :: lo :: hi :: (options ++ rest)) =
      kept [a, b, c, e, control, lo, hi] ++
        (Command.reserved d options ++ PortItem.reserved d rest) := by
    simp only [reserved, ha, List.cons_append, List.nil_append, List.getD_cons_succ,
      List.getD_cons_zero, List.take_succ_cons, List.drop_succ_cons, List.drop_zero, ← hl,
      List.take_left, Nat.add_comm 7, List.drop_left]
    rfl
  rw [hm, ha]
  show clear _ ([a, b, c, e, control, lo, hi] ++ (options ++ rest)) = _
  rw [clear_append (length_kept _), clear_append (Command.length_reserved d options), clear_kept]
  simp

/-- A payload that was read is written with the reserved bits of its commands
cleared. -/
theorem encode_of_decode {d : Direction} {bytes : Bytes} {p : DataPayload}
    (h : decode d bytes = .ok p) : p.encode d = .ok (clear (reserved d bytes) bytes) := by
  obtain ⟨h, ⟨hh, rfl⟩ | ⟨port, rest, items, hh, hi, rfl⟩⟩ := decode_eq_ok_iff.1 h
  · obtain ⟨address, control, lo, hi, options, cs, rfl, hl, hcs, rfl⟩ :=
      FrameHeader.decode_eq_ok_iff.1 hh
    refine encode_eq_ok_iff.2
      ⟨_, FrameHeader.encode_of_decodeAll hl hcs address lo hi, .inl ⟨rfl, rfl, ?_⟩⟩
    rw [clear_reserved hl, PortItem.reserved, clear_nil, List.append_nil]
  · obtain ⟨address, control, lo, hi, options, cs, rfl, hl, hcs, rfl⟩ :=
      FrameHeader.decode_eq_ok_iff.1 hh
    refine encode_eq_ok_iff.2
      ⟨_, FrameHeader.encode_of_decodeAll hl hcs address lo hi,
        .inr ⟨port, _, rfl, PortItem.encodeFor_of_decodeFor ‹_›, ?_⟩⟩
    rw [clear_reserved hl, PortItem.reserved, clear_cons, and_not_zero]

/-- Only the part of the counter that is sent is ever read. -/
theorem onAir_of_decode {d : Direction} {bytes : Bytes} {p : DataPayload}
    (h : decode d bytes = .ok p) : p.onAir = p := by
  have key : ∀ w : UInt16, w.toUInt32 % 65536 = w.toUInt32 := by
    intro w
    rw [← toUInt32_toUInt16, toUInt16_toUInt32]
  obtain ⟨h, ⟨hh, rfl⟩ | ⟨port, rest, items, hh, -, rfl⟩⟩ := decode_eq_ok_iff.1 h
  all_goals
    obtain ⟨address, control, lo, hi, options, cs, -, -, -, rfl⟩ :=
      FrameHeader.decode_eq_ok_iff.1 hh
    simp only [onAir, FrameHeader.onAir, key]

end DataPayload

/-! ### Join payloads -/

theorem JoinRequest.encode_of_decode {bytes : Bytes} {r : JoinRequest}
    (h : decode bytes = .ok r) : r.encode = bytes := by
  unfold decode at h
  split at h
  · rename_i hf
    cases h
    simp only [fields?, Option.bind_eq_bind, Option.bind_eq_some_iff, Prod.exists,
      Octets.split?_eq_some_iff] at hf
    obtain ⟨appEui, _, rfl, devEui, _, rfl, devNonce, _, rfl, hf⟩ := hf
    cases hf
    simp [encode]
  · cases h

theorem JoinAccept.encode_of_decode {bytes : Bytes} {a : JoinAccept}
    (h : decode bytes = .ok a) : a.encode = bytes := by
  unfold decode at h
  split at h
  · rename_i hf
    cases h
    simp only [fields?, Option.bind_eq_bind, Option.bind_eq_some_iff, Prod.exists,
      Octets.split?_eq_some_iff] at hf
    obtain ⟨appNonce, _, rfl, netId, _, rfl, address, tail, rfl, hf⟩ := hf
    split at hf
    · cases hf
      simp [encode]
    · obtain ⟨cfList, hl, hf⟩ := Option.bind_eq_some_iff.1 hf
      cases hf
      simp [encode, Octets.ofList?_eq_some_iff.1 hl]
    · cases hf
  · cases h

/-! ### Payloads and frames -/

namespace Payload

theorem suits_of_decode {m : MessageType} {d : Direction} {bytes : Bytes} {p : Payload}
    (h : decode m d bytes = .ok p) : p.Suits m := by
  cases m <;> simp only [decode, map_eq_ok_iff] at h
  case joinRequest => obtain ⟨r, -, rfl⟩ := h; rfl
  case joinAccept => obtain ⟨a, -, rfl⟩ := h; rfl
  case rejoinRequest => cases h
  case proprietary => cases h; rfl
  all_goals obtain ⟨p, -, rfl⟩ := h; rfl

theorem decode_of_isData {m : MessageType} (hm : m.isData = true) (d : Direction) (bytes : Bytes) :
    decode m d bytes = (DataPayload.decode d bytes).map data := by
  cases m <;> first | rfl | cases hm

/-- Only the part of the counter that is sent is ever read. -/
theorem onAir_of_decode {m : MessageType} {d : Direction} {bytes : Bytes} {p : Payload}
    (h : decode m d bytes = .ok p) : p.onAir = p := by
  cases p with
  | data p =>
    rw [decode_of_isData (suits_of_decode h)] at h
    obtain ⟨_, hp, h⟩ := map_eq_ok_iff.1 h
    cases h
    rw [onAir, DataPayload.onAir_of_decode hp]
  | joinRequest r => rfl
  | joinAccept a => rfl
  | proprietary bs => rfl

/-- A payload that was read is written with the reserved bits of its commands
cleared. -/
theorem encode_of_decode {m : MessageType} {d : Direction} {bytes : Bytes} {p : Payload}
    (hd : m.MayTravel d) (h : decode m d bytes = .ok p) :
    p.encode m = .ok (clear (reserved m d bytes) bytes) := by
  have hs := suits_of_decode h
  cases p with
  | data p =>
    have hm : m.isData = true := hs
    rw [decode_of_isData hm] at h
    obtain ⟨_, hp, h⟩ := map_eq_ok_iff.1 h
    cases h
    simp only [encode, hd.direction_of_isData hm]
    rw [reserved, if_pos hm]
    exact DataPayload.encode_of_decode hp
  | joinRequest r =>
    cases hs
    obtain ⟨_, hr, h⟩ := map_eq_ok_iff.1 h
    cases h
    simp [encode, reserved, MessageType.isData, JoinRequest.encode_of_decode hr]
  | joinAccept a =>
    cases hs
    obtain ⟨_, ha, h⟩ := map_eq_ok_iff.1 h
    cases h
    simp [encode, reserved, MessageType.isData, JoinAccept.encode_of_decode ha]
  | proprietary bs =>
    cases hs
    cases h
    simp [encode, reserved, MessageType.isData]

end Payload

namespace Frame

/-- A message that was read is written with the reserved bits cleared, and the
integrity code follows as it was. -/
theorem signed_of_decode {d : Direction} {bytes : Bytes} {f : Frame} (hd : MayTravel bytes d)
    (h : decode d bytes = .ok f) :
    ∃ message, f.signed = .ok message ∧
      clear (reserved d bytes) bytes = message ++ f.mic.toList := by
  obtain ⟨header, body, m, p, mic, rfl, hl, hm, hp, rfl⟩ := decode_eq_ok_iff.1 h
  obtain ⟨hh, rfl⟩ := MessageType.header_of_ofHeader hm
  have he := Payload.encode_of_decode (hd header rfl) hp
  refine ⟨_, signed_eq_ok_iff.2 ⟨_, he, rfl, ?_⟩, ?_⟩
  · rw [List.length_cons, length_clear (Payload.length_reserved ..)]
    simp only [List.length_cons, List.length_append, Octets.length_toList] at hl
    omega
  · rw [reserved_cons_append, clear_cons, clear_append (Payload.length_reserved ..), clear_kept, hh]
    rfl

/-- A frame that was read has a payload of the kind of its message type, and of its
counter only the part that is sent. -/
theorem suits_of_decode {d : Direction} {bytes : Bytes} {f : Frame}
    (h : decode d bytes = .ok f) :
    (∃ p, f.payload = some p ∧ p.Suits f.messageType) ∧ f.onAir = f := by
  obtain ⟨header, body, m, p, mic, -, -, -, hp, rfl⟩ := decode_eq_ok_iff.1 h
  refine ⟨⟨p, rfl, Payload.suits_of_decode hp⟩, ?_⟩
  simp only [onAir, Option.map_some, Payload.onAir_of_decode hp]

theorem mayTravel_of_decode {d : Direction} {bytes : Bytes} {f : Frame}
    (hd : MayTravel bytes d) (h : decode d bytes = .ok f) : f.messageType.MayTravel d := by
  obtain ⟨header, body, m, p, mic, rfl, -, hm, -, rfl⟩ := decode_eq_ok_iff.1 h
  rw [(MessageType.header_of_ofHeader hm).2]
  exact hd header rfl

/-- **A frame that was read can be sent on**, and what is sent is what was received
with the reserved bits cleared: it has the same length, is read as the same frame, and
is the same exactly if these bits were zero. -/
theorem encode_eq_clear_of_decode {d : Direction} {bytes : Bytes} {f : Frame}
    (hd : MayTravel bytes d) (h : decode d bytes = .ok f) :
    ∃ sent, f.encode = .ok sent ∧ sent.length = bytes.length ∧ decode d sent = .ok f ∧
      sent = clear (reserved d bytes) bytes ∧
      (sent = bytes ↔ IsClear (reserved d bytes) bytes) := by
  obtain ⟨message, hs, hc⟩ := signed_of_decode hd h
  have he : f.encode = .ok (clear (reserved d bytes) bytes) := encode_eq_ok_iff.2 ⟨message, hs, hc⟩
  obtain ⟨⟨p, hp, hk⟩, ha⟩ := suits_of_decode h
  have hb := decode_append_of_signed hp hk (mayTravel_of_decode hd h) hs
  rw [ha, ← hc] at hb
  exact ⟨_, he, length_clear (length_reserved d bytes), hb, rfl,
    clear_eq_self_iff (length_reserved d bytes)⟩

/-- A downlink with reserved bits set in the first byte, in a command of the header and
in one on port zero. -/
theorem encode_eq_clear_of_decode_downlink :
    let bytes : Bytes :=
      [0x74, 0xDA, 0x1B, 0x01, 0x26, 0xA5, 0x2A, 0x00, 0x03, 0x52, 0xFF, 0x00, 0xE1,
        0x00, 0x09, 0xFF, 0x06, 1, 2, 3, 4]
    let f : Frame :=
      ⟨.unconfirmedDataDown, some (.data ⟨⟨⟨⟨[0x26, 0x01, 0x1B, 0xDA], rfl⟩⟩,
        ⟨true, false, true, false⟩, 0x2A, [.linkAdrReq 5 2 0x00FF 6 1]⟩,
        some 0, [.command (.txParamSetupReq true true 15), .command .devStatusReq]⟩),
        ⟨[1, 2, 3, 4], rfl⟩⟩
    MayTravel bytes .down ∧ decode .down bytes = .ok f ∧
      ∃ sent, f.encode = .ok sent ∧ sent.length = bytes.length ∧ decode .down sent = .ok f ∧
        sent = clear (reserved .down bytes) bytes ∧
        (sent = bytes ↔ IsClear (reserved .down bytes) bytes) := by
  intro bytes f
  have hd : MayTravel bytes .down := by
    rintro _ ⟨⟩
    decide
  have h : decode .down bytes = .ok f := by cbv
  exact ⟨hd, h, encode_eq_clear_of_decode hd h⟩

end Frame

end LoraRelay
