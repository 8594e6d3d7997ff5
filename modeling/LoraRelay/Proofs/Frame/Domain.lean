import LoraRelay.Proofs.Command.Domain
import LoraRelay.Proofs.Frame.Kind

/-!
# Data payloads that can be sent

More payloads can be written down than are ever read. The encoder lets through those
that can come out of the decoder, and refuses the others; only the frame counter, of
which it sends the lower half whatever it is, has to be looked at besides.

## The model

`DataPayload.Sendable` says what a payload that can be sent is made of, without the
encoder: commands that can be sent, in the header for at most 15 bytes, and on the port
what belongs there. It is the domain of the encoder (`DataPayload.exists_encode_iff`) and,
with a counter that fits, the range of the decoder.

## What is proved

* `DataPayload.exists_encode_iff` — what the encoder lets through.
* `DataPayload.exists_encode_iff_exists_decode` — the domain of the encoder is the range of
  the decoder, and what is written is read back.
-/

namespace LoraRelay

/-! ### What may be sent to a port -/

namespace PortItem

/-- The elements that may be sent to a port: none to no port, commands to port zero, and to
every other port a block of data that is not empty, or nothing. -/
def Sendable (d : Direction) : Option UInt8 → List PortItem → Prop
  | none, items => items = []
  | some port, items =>
    if port = 0 then ∀ item ∈ items, ∃ c, item = command c ∧ c.Sendable d
    else items = [] ∨ ∃ bytes, bytes ≠ [] ∧ items = [data bytes]

theorem exists_encodeCommands_iff {d : Direction} {items : List PortItem} :
    (∃ bytes, encodeCommands d items = .ok bytes) ↔
      ∀ item ∈ items, ∃ c, item = command c ∧ c.Sendable d := by
  simp only [encodeCommands_eq_ok_iff, Command.encodeAll_eq_ok_iff]
  constructor
  · rintro ⟨_, cs, rfl, hcs, -⟩ item hi
    obtain ⟨c, hc, rfl⟩ := List.mem_map.1 hi
    exact ⟨c, rfl, hcs c hc⟩
  · intro h
    induction items with
    | nil => exact ⟨_, [], rfl, by simp, rfl⟩
    | cons item items ih =>
      obtain ⟨⟨c, rfl, hc⟩, hitems⟩ := List.forall_mem_cons.1 h
      obtain ⟨_, cs, rfl, hcs, -⟩ := ih hitems
      exact ⟨_, c :: cs, rfl, List.forall_mem_cons.2 ⟨hc, hcs⟩, rfl⟩

theorem exists_encodeData_iff {items : List PortItem} :
    (∃ bytes, encodeData items = .ok bytes) ↔
      items = [] ∨ ∃ bytes, bytes ≠ [] ∧ items = [data bytes] := by
  simp only [encodeData_eq_ok_iff]
  constructor
  · rintro ⟨bytes, rfl⟩
    by_cases hb : bytes = []
    · exact .inl (if_pos hb)
    · exact .inr ⟨bytes, hb, if_neg hb⟩
  · rintro (rfl | ⟨bytes, hb, rfl⟩)
    · exact ⟨[], rfl⟩
    · exact ⟨bytes, (if_neg hb).symm⟩

theorem exists_encodeFor_iff {d : Direction} {port : UInt8} {items : List PortItem} :
    (∃ bytes, encodeFor d port items = .ok bytes) ↔ Sendable d (some port) items := by
  simp only [encodeFor, Sendable]
  split
  · exact exists_encodeCommands_iff
  · exact exists_encodeData_iff

end PortItem

/-! ### Payloads -/

namespace FrameHeader

/-- A header is written exactly if its commands can be sent and take at most 15 bytes. -/
theorem exists_encode_iff {h : FrameHeader} {d : Direction} :
    (∃ bytes, h.encode d = .ok bytes) ↔
      (∀ c ∈ h.options, c.Sendable d) ∧
        (h.options.map fun c => 1 + c.bodyLength).sum ≤ maxOptions := by
  simp only [encode_eq_ok_iff, Command.encodeAll_eq_ok_iff, ← Command.length_flatMap_toBytes]
  constructor
  · rintro ⟨_, _, ⟨hs, rfl⟩, hl, -⟩
    exact ⟨hs, hl⟩
  · rintro ⟨hs, hl⟩
    exact ⟨_, _, ⟨hs, rfl⟩, hl, rfl⟩

end FrameHeader

namespace DataPayload

/-- What a payload is made of that can be sent in direction `d`. -/
structure Sendable (p : DataPayload) (d : Direction) : Prop where
  /-- The commands of the header can be sent. -/
  options : ∀ c ∈ p.header.options, c.Sendable d
  /-- There is room for them. -/
  room : (p.header.options.map fun c => 1 + c.bodyLength).sum ≤ 15
  /-- What is sent to the port may be sent there. -/
  items : PortItem.Sendable d p.port p.items

/-- **The encoder lets through what can be sent**, and nothing else. -/
theorem exists_encode_iff {p : DataPayload} {d : Direction} :
    (∃ bytes, p.encode d = .ok bytes) ↔ p.Sendable d := by
  obtain ⟨h, port, items⟩ := p
  simp only [encode_eq_ok_iff]
  constructor
  · rintro ⟨_, header, hh, hb⟩
    obtain ⟨hs, hr⟩ := FrameHeader.exists_encode_iff.1 ⟨header, hh⟩
    refine ⟨hs, hr, ?_⟩
    rcases hb with ⟨rfl, hi, -⟩ | ⟨_, rest, rfl, hi, -⟩
    · exact hi
    · exact PortItem.exists_encodeFor_iff.1 ⟨rest, hi⟩
  · rintro ⟨hs, hr, hi⟩
    obtain ⟨header, hh⟩ := FrameHeader.exists_encode_iff.2 ⟨hs, hr⟩
    cases port with
    | none => exact ⟨_, header, hh, .inl ⟨rfl, hi, rfl⟩⟩
    | some port =>
      obtain ⟨rest, hi⟩ := PortItem.exists_encodeFor_iff.2 hi
      exact ⟨_, header, hh, .inr ⟨port, rest, rfl, hi, rfl⟩⟩

theorem onAir_eq_self_iff {p : DataPayload} : p.onAir = p ↔ p.header.counter ≤ 65535 := by
  rw [← FrameHeader.onAir_eq_self_iff]
  obtain ⟨h, port, items⟩ := p
  simp [onAir]

/-- **The domain of the encoder is the range of the decoder**: a payload is let through and
has a counter that fits exactly if there are bytes that are read as it, and then what it is
written as are such bytes. The encoder lets through what can be sent. -/
theorem exists_encode_iff_exists_decode (p : DataPayload) (d : Direction) :
    ((∃ bytes, p.encode d = .ok bytes) ∧ p.header.counter ≤ 65535 ↔
      ∃ bytes, decode d bytes = .ok p) ∧
    (∀ bytes, p.encode d = .ok bytes → p.header.counter ≤ 65535 → decode d bytes = .ok p) ∧
    ((∃ bytes, p.encode d = .ok bytes) ↔ p.Sendable d) := by
  have hback : ∀ bytes, p.encode d = .ok bytes → p.header.counter ≤ 65535 →
      decode d bytes = .ok p := by
    intro bytes he hc
    rw [decode_of_encode he, onAir_eq_self_iff.2 hc]
  refine ⟨⟨?_, ?_⟩, hback, exists_encode_iff⟩
  · rintro ⟨⟨bytes, he⟩, hc⟩
    exact ⟨bytes, hback bytes he hc⟩
  · rintro ⟨bytes, hd⟩
    exact ⟨⟨_, encode_of_decode hd⟩, onAir_eq_self_iff.1 (onAir_of_decode hd)⟩

/-- A downlink with fifteen bytes of commands in the header and commands on port zero. -/
theorem exists_encode_iff_exists_decode_full_options :
    let p : DataPayload :=
      ⟨⟨⟨⟨[0x26, 0x01, 0x1B, 0xDA], rfl⟩⟩, ⟨true, false, true, false⟩, 0xFFFF,
        [.newChannelReq 3 867100000 5 0, .linkAdrReq 5 2 0x00FF 6 1, .linkCheckAns 20 3,
          .devStatusReq]⟩,
        some 0, [.command (.rxParamSetupReq 1 2 869525000), .command (.dutyCycleReq 15)]⟩
    let bytes : Bytes :=
      [0xDA, 0x1B, 0x01, 0x26, 0xAF, 0xFF, 0xFF, 0x07, 0x03, 0x18, 0x4F, 0x84, 0x50, 0x03, 0x52,
        0xFF, 0x00, 0x61, 0x02, 0x14, 0x03, 0x06, 0x00, 0x05, 0x12, 0xD2, 0xAD, 0x84, 0x04, 0x0F]
    p.encode .down = .ok bytes ∧ p.header.counter ≤ 65535 ∧ decode .down bytes = .ok p ∧
      p.Sendable .down := by
  intro p bytes
  have he : p.encode .down = .ok bytes := by cbv
  have hc : p.header.counter ≤ 65535 := by decide
  obtain ⟨-, hback, hs⟩ := exists_encode_iff_exists_decode p .down
  exact ⟨he, hc, hback bytes he hc, hs.1 ⟨bytes, he⟩⟩

end DataPayload

end LoraRelay
