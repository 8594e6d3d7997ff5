import LoraRelay.Frame.Basic
import LoraRelay.Proofs.Command.Sequence

/-!
# The layout of frames

What encoders and decoders of frames and of their parts have to do with the bytes,
each said once. The codec consists of steps that may fail; here every step that
succeeded is turned into an equation between byte strings, and the proofs about
frames use these equations only.
-/

namespace LoraRelay

/-! ### The frame header -/

namespace FrameHeader

theorem encode_eq_ok_iff {h : FrameHeader} {d : Direction} {bytes : Bytes} :
    h.encode d = .ok bytes ↔
      ∃ options, Command.encodeAll d h.options = .ok options ∧ options.length ≤ maxOptions ∧
        bytes = h.address.toWire.toList ++ h.control.toByte options.length ::
          (le16 h.counter.toUInt16).toList ++ options := by
  simp only [encode, bind_eq_ok_iff, pure_eq_ok_iff, Command.encodeWithin_eq_ok_iff, and_assoc,
    eq_comm (a := bytes)]

/-- A header is read off the front of what follows it, if its commands are read. -/
theorem decode_append {d : Direction} {control : UInt8} {options : Bytes}
    (hl : options.length = FrameControl.optionsLength control) (address : Octets 4) (lo hi : UInt8)
    (rest : Bytes) :
    decode d (address.toList ++ control :: lo :: hi :: (options ++ rest)) =
      (Command.decodeAll d options).map fun cs =>
        (⟨.ofWire address, .ofByte control, (ofLe16 lo hi).toUInt32, cs⟩, rest) := by
  simp only [decode, Octets.split?_append, ← hl, List.take_left, List.drop_left]
  rw [if_neg (by simp)]
  cases Command.decodeAll d options <;> rfl

theorem decode_eq_ok_iff {d : Direction} {bytes rest : Bytes} {h : FrameHeader} :
    decode d bytes = .ok (h, rest) ↔
      ∃ (address : Octets 4) (control lo hi : UInt8) (options : Bytes) (cs : List Command),
        bytes = address.toList ++ control :: lo :: hi :: (options ++ rest) ∧
        options.length = FrameControl.optionsLength control ∧
        Command.decodeAll d options = .ok cs ∧
        h = ⟨.ofWire address, .ofByte control, (ofLe16 lo hi).toUInt32, cs⟩ := by
  constructor
  · intro hd
    unfold decode at hd
    split at hd
    · rename_i address control lo hi tail hs
      simp only at hd
      split at hd
      · cases hd
      · obtain ⟨cs, hcs, hd⟩ := bind_eq_ok_iff.1 hd
        cases hd
        refine ⟨address, control, lo, hi, _, cs, ?_, ?_, hcs, rfl⟩
        · rw [List.take_append_drop]
          exact Octets.split?_eq_some_iff.1 hs
        · rw [List.length_take]
          omega
    · cases hd
  · rintro ⟨address, control, lo, hi, options, cs, rfl, hl, hcs, rfl⟩
    rw [decode_append hl, hcs]
    rfl

end FrameHeader

/-! ### Data payloads -/

namespace DataPayload

theorem encode_eq_ok_iff {p : DataPayload} {d : Direction} {bytes : Bytes} :
    p.encode d = .ok bytes ↔
      ∃ header, p.header.encode d = .ok header ∧
        (p.port = none ∧ p.items = [] ∧ bytes = header ∨
          ∃ port rest, p.port = some port ∧ PortItem.encodeFor d port p.items = .ok rest ∧
            bytes = header ++ port :: rest) := by
  obtain ⟨h, port, items⟩ := p
  simp only [encode, bind_eq_ok_iff]
  cases port with
  | none =>
    by_cases hi : items = []
    · simp only [if_pos hi, pure_eq_ok_iff]
      constructor
      · rintro ⟨header, hh, rfl⟩
        exact ⟨header, hh, .inl ⟨trivial, hi, rfl⟩⟩
      · rintro ⟨header, hh, ⟨-, -, rfl⟩ | ⟨_, _, hp, -⟩⟩
        · exact ⟨bytes, hh, rfl⟩
        · cases hp
    · simp only [if_neg hi, throw_eq_ok_iff, and_false, exists_false, false_iff]
      rintro ⟨header, -, ⟨-, h', -⟩ | ⟨_, _, hp, -⟩⟩
      · exact hi h'
      · cases hp
  | some port =>
    simp only [bind_eq_ok_iff, pure_eq_ok_iff]
    constructor
    · rintro ⟨header, hh, rest, hr, rfl⟩
      exact ⟨header, hh, .inr ⟨port, rest, rfl, hr, rfl⟩⟩
    · rintro ⟨header, hh, ⟨hp, -⟩ | ⟨_, rest, hp, hr, rfl⟩⟩
      · cases hp
      · cases hp
        exact ⟨header, hh, rest, hr, rfl⟩

theorem decode_eq_ok_iff {d : Direction} {bytes : Bytes} {p : DataPayload} :
    decode d bytes = .ok p ↔
      ∃ h, FrameHeader.decode d bytes = .ok (h, []) ∧ p = ⟨h, none, []⟩ ∨
        ∃ port rest items, FrameHeader.decode d bytes = .ok (h, port :: rest) ∧
          PortItem.decodeFor d port rest = .ok items ∧ p = ⟨h, some port, items⟩ := by
  simp only [decode, bind_eq_ok_iff]
  constructor
  · rintro ⟨⟨h, _ | ⟨port, rest⟩⟩, hh, hp⟩
    · cases hp
      exact ⟨h, .inl ⟨hh, rfl⟩⟩
    · obtain ⟨items, hi, hp⟩ := bind_eq_ok_iff.1 hp
      cases hp
      exact ⟨h, .inr ⟨port, rest, items, hh, hi, rfl⟩⟩
  · rintro ⟨h, ⟨hh, rfl⟩ | ⟨port, rest, items, hh, hi, rfl⟩⟩
    · exact ⟨_, hh, rfl⟩
    · exact ⟨_, hh, bind_eq_ok_iff.2 ⟨items, hi, rfl⟩⟩

end DataPayload

/-! ### Frames -/

namespace Frame

theorem signed_eq_ok_iff {f : Frame} {bytes : Bytes} :
    f.signed = .ok bytes ↔
      ∃ body, f.encodePayload = .ok body ∧ bytes = f.messageType.header :: body ∧
        bytes.length + 4 ≤ maxLength := by
  simp only [signed, bind_eq_ok_iff]
  constructor
  · rintro ⟨body, hb, h⟩
    split at h
    · simp only [bind_eq_ok_iff, throw_eq_ok_iff, false_and, exists_false] at h
    · cases h
      exact ⟨body, hb, rfl, by omega⟩
  · rintro ⟨body, hb, rfl, hl⟩
    refine ⟨body, hb, ?_⟩
    rw [if_neg (by omega)]
    rfl

theorem encode_eq_ok_iff {f : Frame} {bytes : Bytes} :
    f.encode = .ok bytes ↔ ∃ message, f.signed = .ok message ∧ bytes = message ++ f.mic.toList := by
  simp only [encode, bind_eq_ok_iff, pure_eq_ok_iff, eq_comm (a := bytes)]

theorem decode_eq_ok_iff {d : Direction} {bytes : Bytes} {f : Frame} :
    decode d bytes = .ok f ↔
      ∃ header body m p mic, bytes = header :: (body ++ Octets.toList mic) ∧
        bytes.length ≤ maxLength ∧ MessageType.ofHeader header = .ok m ∧
        Payload.decode m d body = .ok p ∧ f = ⟨m, some p, mic⟩ := by
  constructor
  · intro h
    unfold decode at h
    split at h
    · cases h
    · rename_i header rest
      split at h
      · cases h
      · rename_i body mic hs
        split at h
        · simp only [bind_eq_ok_iff, throw_eq_ok_iff, false_and, exists_false] at h
        · obtain ⟨m, hm, h⟩ := bind_eq_ok_iff.1 h
          obtain ⟨p, hp, h⟩ := bind_eq_ok_iff.1 h
          cases h
          obtain rfl := Octets.splitLast?_eq_some_iff.1 hs
          exact ⟨header, body, m, p, mic, rfl, by omega, hm, hp, rfl⟩
  · rintro ⟨header, body, m, p, mic, rfl, hl, hm, hp, rfl⟩
    simp only [decode, Octets.splitLast?_append]
    rw [if_neg (by omega)]
    exact bind_eq_ok_iff.2 ⟨m, hm, bind_eq_ok_iff.2 ⟨p, hp, rfl⟩⟩

end Frame

end LoraRelay
