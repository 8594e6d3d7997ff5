import LoraRelay.Proofs.Command.Records
import LoraRelay.Proofs.Frame.Reserved
import Mathlib.Data.List.GetD

/-!
# The grammar of frames

Which bytes are a frame is told by their number and by a few of them: the first byte, the
one that announces the commands of the header, the port, and the identifiers of commands.
The decoder finds this out on the way through several readers, each of which knows only
what is left of the bytes.

## The model

`Frame.Grammatical` says it of the whole frame at once, with positions counted from its
first byte. It does not use the decoder.

## What is proved

* `Frame.exists_decode_payload_iff` — the payload of a message is read exactly if the whole
  frame is one of that message.
* `Frame.exists_decode_iff_grammatical` — the decoder accepts exactly the grammar.
-/

namespace LoraRelay

variable {d : Direction} {bytes : Bytes}

/-! ### The grammar -/

namespace Frame

/-- How many bytes of commands the header of a data frame announces. -/
def announced (bytes : Bytes) : Nat := (bytes.getD 5 0).toNat % 16

/-- The frame holds a header with as many bytes of commands as it announces, and then
nothing more, or a port and what is sent to it: commands on port zero. -/
structure HoldsData (d : Direction) (bytes : Bytes) : Prop where
  /-- The type, the header with its commands, and the integrity code are there. -/
  length_ge : 12 + announced bytes ≤ bytes.length
  /-- The announced bytes are commands. -/
  options : Command.Records d (bytes.extract 8 (8 + announced bytes))
  /-- What is sent to port zero are commands. -/
  commands : 12 + announced bytes < bytes.length → bytes[8 + announced bytes]? = some 0 →
    Command.Records d (bytes.extract (9 + announced bytes) (bytes.length - 4))

/-- The frame is one of a message of type `m`. No message asks to join again. -/
def Holds (d : Direction) (bytes : Bytes) : MessageType → Prop
  | .joinRequest => bytes.length = 23
  | .joinAccept => bytes.length = 17 ∨ bytes.length = 33
  | .unconfirmedDataUp | .unconfirmedDataDown | .confirmedDataUp | .confirmedDataDown =>
    HoldsData d bytes
  | .rejoinRequest => False
  | .proprietary => True

/-- The bytes are a frame, its commands being of direction `d`. -/
structure Grammatical (d : Direction) (bytes : Bytes) : Prop where
  /-- The type and the integrity code are there. -/
  length_ge : 5 ≤ bytes.length
  /-- The frame is not too long. -/
  length_le : bytes.length ≤ 255
  /-- The low two bits of the first byte are the version. -/
  version : bytes.getD 0 0 % 4 = 0
  /-- The top three bits of the first byte are the message type. -/
  messageType : ∃ m : MessageType, m.header / 32 = bytes.getD 0 0 / 32 ∧ Holds d bytes m

end Frame

/-- The top three bits of a byte are those of the header of one message type. -/
theorem MessageType.header_div_eq_iff {m : MessageType} {b : UInt8} :
    m.header / 32 = b / 32 ↔ m = ofTopBits b := by
  have key : ∀ b : UInt8, (ofTopBits b).header / 32 = b / 32 := forall_byte (by decide +kernel)
  constructor
  · intro h
    rw [← ofTopBits_header m, ofTopBits, h, ← ofTopBits]
  · rintro rfl
    exact key b

/-! ### Join payloads -/

theorem JoinRequest.exists_encode_eq (h : bytes.length = length) :
    ∃ r : JoinRequest, r.encode = bytes := by
  rw [length] at h
  obtain ⟨appEui, rest, rfl⟩ := Octets.exists_append_eq 8 (show 8 ≤ bytes.length by omega)
  rw [List.length_append, Octets.length_toList] at h
  obtain ⟨devEui, rest, rfl⟩ := Octets.exists_append_eq 8 (show 8 ≤ rest.length by omega)
  rw [List.length_append, Octets.length_toList] at h
  exact ⟨⟨.ofWire appEui, .ofWire devEui, ⟨rest, by omega⟩⟩, by simp [encode]⟩

theorem JoinRequest.exists_decode_iff :
    (∃ r, decode bytes = .ok r) ↔ bytes.length = length := by
  constructor
  · rintro ⟨r, h⟩
    rw [← encode_of_decode h, length_encode]
  · intro h
    obtain ⟨r, rfl⟩ := exists_encode_eq h
    exact ⟨r, decode_encode r⟩

theorem JoinRequest.decode_of_length_ne (h : bytes.length ≠ length) :
    decode bytes = .error (.tooShort length bytes.length) := by
  cases hd : decode bytes with
  | ok r => exact absurd (exists_decode_iff.1 ⟨r, hd⟩) h
  | error e =>
    unfold decode at hd
    split at hd <;> cases hd
    rfl

theorem JoinAccept.exists_encode_eq (h : bytes.length = 12 ∨ bytes.length = 28) :
    ∃ a : JoinAccept, a.encode = bytes := by
  obtain ⟨appNonce, rest, rfl⟩ := Octets.exists_append_eq 3 (show 3 ≤ bytes.length by omega)
  rw [List.length_append, Octets.length_toList] at h
  obtain ⟨netId, rest, rfl⟩ := Octets.exists_append_eq 3 (show 3 ≤ rest.length by omega)
  rw [List.length_append, Octets.length_toList] at h
  obtain ⟨address, rest, rfl⟩ := Octets.exists_append_eq 4 (show 4 ≤ rest.length by omega)
  rw [List.length_append, Octets.length_toList] at h
  rcases rest with _ | ⟨dlSettings, _ | ⟨rxDelay, rest⟩⟩
  · simp at h
  · simp at h
  · rw [List.length_cons, List.length_cons] at h
    rcases h with h | h
    · obtain rfl := List.eq_nil_of_length_eq_zero (show rest.length = 0 by omega)
      exact ⟨⟨appNonce, netId, .ofWire address, dlSettings, rxDelay, none⟩, by simp [encode]⟩
    · exact ⟨⟨appNonce, netId, .ofWire address, dlSettings, rxDelay, some ⟨rest, by omega⟩⟩,
        by simp [encode]⟩

theorem JoinAccept.exists_decode_iff :
    (∃ a, decode bytes = .ok a) ↔ bytes.length = 12 ∨ bytes.length = 28 := by
  constructor
  · rintro ⟨a, h⟩
    rw [← encode_of_decode h]
    exact a.length_encode
  · intro h
    obtain ⟨a, rfl⟩ := exists_encode_eq h
    exact ⟨a, decode_encode a⟩

/-! ### Data payloads -/

/-- Anything can be sent to a port, but to port zero only commands. -/
theorem PortItem.exists_decodeFor_iff {port : UInt8} :
    (∃ items, decodeFor d port bytes = .ok items) ↔ (port = 0 → Command.Records d bytes) := by
  rw [decodeFor]
  split
  · rename_i hp
    rw [exists_map_eq_ok_iff, Command.exists_decodeAll_iff_records]
    exact ⟨fun h _ => h, fun h => h hp⟩
  · rename_i hp
    exact iff_of_true ⟨_, rfl⟩ fun h => absurd h hp

namespace DataPayload

/-- The bytes of a header are a payload if the announced ones are commands, and so is what
is sent to port zero behind them. -/
theorem exists_decode_append_iff {control : UInt8} {options : Bytes}
    (hl : options.length = FrameControl.optionsLength control) (address : Octets 4)
    (lo hi : UInt8) (rest : Bytes) :
    (∃ p, decode d (address.toList ++ control :: lo :: hi :: (options ++ rest)) = .ok p) ↔
      Command.Records d options ∧ ∀ more, rest = 0 :: more → Command.Records d more := by
  constructor
  · rintro ⟨p, h⟩
    obtain ⟨h, ⟨hh, -⟩ | ⟨port, more, items, hh, hi, -⟩⟩ := decode_eq_ok_iff.1 h
    · rw [FrameHeader.decode_append hl] at hh
      obtain ⟨cs, hcs, he⟩ := map_eq_ok_iff.1 hh
      cases he
      exact ⟨Command.exists_decodeAll_iff_records.1 ⟨cs, hcs⟩, nofun⟩
    · rw [FrameHeader.decode_append hl] at hh
      obtain ⟨cs, hcs, he⟩ := map_eq_ok_iff.1 hh
      cases he
      refine ⟨Command.exists_decodeAll_iff_records.1 ⟨cs, hcs⟩, ?_⟩
      rintro _ ⟨⟩
      exact PortItem.exists_decodeFor_iff.1 ⟨items, hi⟩ rfl
  · rintro ⟨ho, hm⟩
    obtain ⟨cs, hcs⟩ := Command.exists_decodeAll_iff_records.2 ho
    have hh := FrameHeader.decode_append (d := d) hl address lo hi rest
    rw [hcs] at hh
    cases rest with
    | nil => exact ⟨_, decode_eq_ok_iff.2 ⟨_, .inl ⟨hh, rfl⟩⟩⟩
    | cons port more =>
      obtain ⟨items, hi⟩ : ∃ items, PortItem.decodeFor d port more = .ok items :=
        PortItem.exists_decodeFor_iff.2 fun hp => hm more (by rw [hp])
      exact ⟨_, decode_eq_ok_iff.2 ⟨_, .inr ⟨port, more, items, hh, hi, rfl⟩⟩⟩

end DataPayload

/-! ### Positions in a frame -/

theorem extract_append {front bytes : Bytes} {i j : Nat} (hi : front.length = i)
    (hj : i + bytes.length = j) (rest : Bytes) :
    (front ++ (bytes ++ rest)).extract i j = bytes := by
  subst hi hj
  rw [List.extract_eq_take_drop, List.drop_left, Nat.add_sub_cancel_left, List.take_left]

theorem getElem?_append_cons {front : Bytes} {i : Nat} (hi : front.length = i) (b : UInt8)
    (rest : Bytes) : (front ++ b :: rest)[i]? = some b := by
  subst hi
  rw [List.getElem?_append_right (Nat.le_refl _), Nat.sub_self]
  rfl

namespace Frame

/-- A port stands behind the commands, and in front of the code what is sent to it. -/
theorem port_append {front : Bytes} (hf : front.length = 8) (options : Bytes) (port : UInt8)
    (more : Bytes) (mic : Mic) :
    let frame := front ++ (options ++ (port :: more ++ mic.toList))
    frame[8 + options.length]? = some port ∧
      frame.extract (9 + options.length) (frame.length - 4) = more := by
  intro frame
  have hoptions : (front ++ options).length = 8 + options.length := by
    rw [List.length_append, hf]
  have hport : (front ++ options ++ [port]).length = 9 + options.length := by
    rw [List.length_append, hoptions, List.length_singleton]
    omega
  have hend : 9 + options.length + more.length = frame.length - 4 := by
    simp only [frame, List.length_append, List.length_cons, Octets.length_toList]
    omega
  have hframe : frame = front ++ options ++ port :: (more ++ mic.toList) := by
    simp only [frame, List.append_assoc, List.cons_append]
  constructor
  · rw [hframe]
    exact getElem?_append_cons hoptions port _
  · rw [← hend, hframe, ← List.singleton_append, ← List.append_assoc]
    exact extract_append hport rfl mic.toList

theorem announced_append {front : Bytes} (hf : front.length = 8) (rest : Bytes) :
    announced (front ++ rest) = announced front := by
  rw [announced, List.getD_append _ _ _ _ (by omega), announced]

/-- The grammar of a data frame in terms of its parts: what stands in front of the commands,
these, the rest of the payload, and the integrity code. -/
theorem holdsData_append_iff {front options : Bytes} (hf : front.length = 8)
    (hn : announced front = options.length) (rest : Bytes) (mic : Mic) :
    HoldsData d (front ++ (options ++ (rest ++ mic.toList))) ↔
      Command.Records d options ∧ ∀ more, rest = 0 :: more → Command.Records d more := by
  have ha : announced (front ++ (options ++ (rest ++ mic.toList))) = options.length := by
    rw [announced_append hf, hn]
  have hl : (front ++ (options ++ (rest ++ mic.toList))).length =
      12 + options.length + rest.length := by
    simp only [List.length_append, Octets.length_toList]
    omega
  have ho : (front ++ (options ++ (rest ++ mic.toList))).extract 8 (8 + options.length) = options :=
    extract_append hf rfl _
  constructor
  · intro h
    have hopt := h.options
    have hcmd := h.commands
    rw [ha] at hopt hcmd
    rw [ho] at hopt
    refine ⟨hopt, ?_⟩
    rintro more rfl
    obtain ⟨hport, hmore⟩ := port_append hf options 0 more mic
    rw [hport, hmore] at hcmd
    exact hcmd (by rw [hl, List.length_cons]; omega) rfl
  · rintro ⟨hopt, hcmd⟩
    refine ⟨by omega, by rwa [ha, ho], ?_⟩
    rw [ha]
    intro hlt hzero
    cases rest with
    | nil =>
      rw [hl] at hlt
      exact absurd hlt (Nat.lt_irrefl _)
    | cons port more =>
      obtain ⟨hport, hmore⟩ := port_append hf options port more mic
      rw [hport] at hzero
      cases hzero
      rw [hmore]
      exact hcmd more rfl

theorem announced_cons_append (header : UInt8) (address : Octets 4) (control : UInt8)
    (rest : Bytes) :
    announced (header :: (address.toList ++ control :: rest)) =
      FrameControl.optionsLength control := by
  obtain ⟨a, b, c, e, ha⟩ := List.length_eq_four.1 address.length_toList
  rw [ha, FrameControl.optionsLength, UInt8.toNat_mod]
  rfl

theorem holdsData_cons_append_iff {control : UInt8} {options : Bytes}
    (hl : options.length = FrameControl.optionsLength control) (header : UInt8)
    (address : Octets 4) (lo hi : UInt8) (rest : Bytes) (mic : Mic) :
    HoldsData d (header ::
        (address.toList ++ control :: lo :: hi :: (options ++ rest) ++ mic.toList)) ↔
      Command.Records d options ∧ ∀ more, rest = 0 :: more → Command.Records d more := by
  have hf : (header :: (address.toList ++ [control, lo, hi])).length = 8 := by
    simp
  have hn := announced_cons_append header address control [lo, hi]
  rw [← hl] at hn
  have h := holdsData_append_iff (d := d) hf hn rest mic
  simpa only [List.cons_append, List.nil_append, List.append_assoc] using h

theorem exists_header_append {body : Bytes} (h : 7 ≤ body.length) :
    ∃ (address : Octets 4) (control lo hi : UInt8) (tail : Bytes),
      body = address.toList ++ control :: lo :: hi :: tail := by
  obtain ⟨address, rest, rfl⟩ := Octets.exists_append_eq 4 (show 4 ≤ body.length by omega)
  rw [List.length_append, Octets.length_toList] at h
  rcases rest with _ | ⟨control, _ | ⟨lo, _ | ⟨hi, tail⟩⟩⟩
  case cons.cons.cons => exact ⟨address, control, lo, hi, tail, rfl⟩
  all_goals simp at h

/-- The payload of a data frame is read exactly if the frame is as the grammar says. -/
theorem exists_decode_data_iff (header : UInt8) (body : Bytes) (mic : Mic) :
    (∃ p, DataPayload.decode d body = .ok p) ↔ HoldsData d (header :: (body ++ mic.toList)) := by
  constructor
  · rintro ⟨p, h⟩
    obtain ⟨⟨_, rest⟩, hh, -⟩ := bind_eq_ok_iff.1 h
    obtain ⟨address, control, lo, hi, options, cs, rfl, hl, -, -⟩ :=
      FrameHeader.decode_eq_ok_iff.1 hh
    rw [holdsData_cons_append_iff hl]
    exact (DataPayload.exists_decode_append_iff hl address lo hi rest).1 ⟨p, h⟩
  · intro h
    have hlen := h.length_ge
    rw [List.length_cons, List.length_append, Octets.length_toList] at hlen
    obtain ⟨address, control, lo, hi, tail, rfl⟩ :=
      exists_header_append (show 7 ≤ body.length by omega)
    rw [List.append_assoc, List.cons_append, announced_cons_append] at hlen
    simp only [List.length_append, List.length_cons, Octets.length_toList] at hlen
    obtain ⟨⟨options, hl⟩, rest, rfl⟩ :=
      Octets.exists_append_eq (FrameControl.optionsLength control) (show _ ≤ tail.length by omega)
    exact (DataPayload.exists_decode_append_iff hl address lo hi rest).2
      ((holdsData_cons_append_iff hl header address lo hi rest mic).1 h)

/-! ### Frames -/

/-- The payload of a message is read exactly if the frame is one of that message. -/
theorem exists_decode_payload_iff (m : MessageType) (header : UInt8) (body : Bytes) (mic : Mic) :
    (∃ p, Payload.decode m d body = .ok p) ↔ Holds d (header :: (body ++ mic.toList)) m := by
  have hl : (header :: (body ++ mic.toList)).length = body.length + 5 := by
    rw [List.length_cons, List.length_append, Octets.length_toList]
  cases m
  case joinRequest =>
    rw [Payload.decode, exists_map_eq_ok_iff, JoinRequest.exists_decode_iff, JoinRequest.length,
      Holds, hl]
    omega
  case joinAccept =>
    rw [Payload.decode, exists_map_eq_ok_iff, JoinAccept.exists_decode_iff, Holds, hl]
    omega
  case rejoinRequest =>
    refine iff_of_false ?_ not_false
    rintro ⟨_, ⟨⟩⟩
  case proprietary => exact iff_of_true ⟨_, rfl⟩ trivial
  all_goals
    rw [Payload.decode, exists_map_eq_ok_iff]
    exact exists_decode_data_iff header body mic

/-- **The decoder accepts exactly the grammar of frames.** -/
theorem exists_decode_iff_grammatical (d : Direction) (bytes : Bytes) :
    (∃ f, decode d bytes = .ok f) ↔ Grammatical d bytes := by
  constructor
  · rintro ⟨f, h⟩
    obtain ⟨header, body, m, p, mic, rfl, hle, hm, hp, -⟩ := decode_eq_ok_iff.1 h
    obtain ⟨hv, ht⟩ := MessageType.ofHeader_eq_ok_iff.1 hm
    exact ⟨by simp, hle, hv, m, MessageType.header_div_eq_iff.2 ht,
      (exists_decode_payload_iff m header body mic).1 ⟨p, hp⟩⟩
  · rintro ⟨hge, hle, hv, m, ht, hb⟩
    cases bytes with
    | nil => simp at hge
    | cons header rest =>
      obtain ⟨body, mic, rfl⟩ := Octets.exists_append_toList_eq 4 (Nat.le_of_succ_le_succ hge)
      obtain ⟨p, hp⟩ := (exists_decode_payload_iff m header body mic).2 hb
      have hm := MessageType.ofHeader_eq_ok_iff.2 ⟨hv, MessageType.header_div_eq_iff.1 ht⟩
      exact ⟨_, decode_eq_ok_iff.2 ⟨header, body, m, p, mic, rfl, hle, hm, hp, rfl⟩⟩

end Frame

end LoraRelay
