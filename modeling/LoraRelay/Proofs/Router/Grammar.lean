import LoraRelay.Proofs.Field
import LoraRelay.Proofs.Frame.Kind
import LoraRelay.Proofs.Frame.Misread

/-!
# The grammar of router packets

A router packet is three fields: a tag with a direction, metadata and a data frame that
is read in that direction. The decoder accepts a little more than the frames that travel
in the direction of their tag.

## The model

Reading a packet ends with making it of what was read, and this encodes the frame again.
`RouterPacket.ofFrame_of_decode_iff` says for which frames that were read this goes well:
those with a data type whose direction is the tag, since what was read can be sent, and
those without commands, since nothing else is read differently in the two directions.

## What is proved

* `RouterPacket.ofFrame_eq_ok_iff` — for which frames there is a packet.
* `RouterPacket.decode_eq_ok_iff_grammar` — which bytes are accepted, and what the packet holds.
-/

namespace LoraRelay

theorem Direction.eq_or_eq_opposite (d e : Direction) : d = e ∨ d = e.opposite := by
  cases d <;> cases e <;> simp [opposite]

theorem MessageType.isJoin_of_isData {m : MessageType} (h : m.isData = true) :
    m.isJoin = false := by
  cases m <;> first | rfl | cases h

/-- What was read of a message of direction `d` begins with a byte of that direction. -/
theorem Frame.mayTravel_of_messageType {d e : Direction} {bytes : Bytes} {f : Frame}
    (h : decode e bytes = .ok f) (hd : f.messageType.MayTravel d) : MayTravel bytes d := by
  obtain ⟨header, body, m, p, mic, rfl, -, hm, -, rfl⟩ := decode_eq_ok_iff.1 h
  rintro _ ⟨⟩
  rw [← (MessageType.header_of_ofHeader hm).2]
  exact hd

theorem Frame.exists_encode_of_decode {d : Direction} {bytes : Bytes} {f : Frame}
    (h : decode d bytes = .ok f) (hd : f.messageType.direction? = some d) :
    ∃ sent, f.encode = .ok sent := by
  obtain ⟨message, hs, -⟩ := signed_of_decode (mayTravel_of_messageType h (.inr hd)) h
  exact ⟨_, encode_eq_ok_iff.2 ⟨message, hs, rfl⟩⟩

/-- A data frame that was read in direction `d` can be sent on exactly if it travels in
that direction or has no commands. -/
theorem Frame.exists_encode_iff_of_decode {d : Direction} {bytes : Bytes} {f : Frame}
    (h : decode d bytes = .ok f) (hm : f.messageType.isData = true) :
    (∃ sent, f.encode = .ok sent) ↔ f.messageType.direction? = some d ∨ f.commands = [] := by
  obtain ⟨e, he⟩ := MessageType.exists_direction_of_isData hm
  rcases d.eq_or_eq_opposite e with rfl | rfl
  · exact iff_of_true (exists_encode_of_decode h he) (.inl he)
  · rcases signed_of_decode_opposite hm he h with ⟨hc, hb⟩ | ⟨c, cs, hc, hs⟩
    · exact iff_of_true (exists_encode_of_decode hb he) (.inr hc)
    · refine iff_of_false ?_ ?_
      · rintro ⟨sent, hs'⟩
        rw [(fail_of_signed hs).1] at hs'
        cases hs'
      · rw [he, hc]
        rintro (hd | hd)
        · exact Direction.ne_of_eq_opposite rfl (Option.some.inj hd).symm
        · cases hd

theorem Octets.toList_of_byte {a : Octets 1} {b : UInt8} (h : a.byte = b) :
    a.toList = [b] := by
  obtain ⟨bytes, hl⟩ := a
  obtain ⟨c, rfl⟩ := List.length_eq_one_iff.1 hl
  exact congrArg (fun x => [x]) h

namespace RouterPacket

/-! ### Making a packet -/

theorem checkSendable_eq_ok_iff {f : Frame} :
    checkSendable f = .ok () ↔ (f.messageType.isData = true → ∃ sent, f.encode = .ok sent) := by
  unfold checkSendable
  split
  · simp only [map_eq_ok_iff, mapError_eq_ok_iff, and_true, forall_const, *]
  · simp [*]

theorem ofParts_frame (p : RouterPacket) (m : Metadata) :
    ofParts p.frame m =
      if p.messageType.isJoin = true then .error (.dataUnderJoin p.messageType)
      else if 65535 < p.payload.header.counter then
        .error (.counterOverflow p.payload.header.counter)
      else .ok { p with metadata := m } :=
  rfl

theorem counterFits_frame {p : RouterPacket} :
    p.frame.CounterFits ↔ p.payload.header.counter ≤ 65535 := by
  simp [Frame.CounterFits, frame, Frame.data?, Payload.data?]

theorem ofParts_eq_ok_iff {f : Frame} {m : Metadata} {p : RouterPacket} :
    ofParts f m = .ok p ↔
      f.messageType.isJoin = false ∧ f.CounterFits ∧ p.frame = f ∧ p.metadata = m := by
  constructor
  · intro h
    obtain ⟨rfl, rfl⟩ := frame_of_ofParts h
    rw [ofParts_frame] at h
    split at h
    · cases h
    · rename_i hj
      split at h
      · cases h
      · rename_i hc
        exact ⟨Bool.eq_false_iff.2 hj, counterFits_frame.2 (UInt32.not_lt.1 hc), rfl, rfl⟩
  · rintro ⟨hj, hc, rfl, rfl⟩
    have hj : ¬ p.messageType.isJoin = true := Bool.eq_false_iff.1 hj
    rw [ofParts_frame, if_neg hj, if_neg (UInt32.not_lt.2 (counterFits_frame.1 hc))]

/-- **For which frames there is a packet**: a data frame must be one that can be sent, no
join message may hold the data, and the counter must fit. The packet holds the frame and
the metadata. -/
theorem ofFrame_eq_ok_iff {f : Frame} {m : Metadata} {p : RouterPacket} :
    ofFrame f m = .ok p ↔
      (f.messageType.isData = true → ∃ sent, f.encode = .ok sent) ∧
        f.messageType.isJoin = false ∧ f.CounterFits ∧ p.frame = f ∧ p.metadata = m := by
  simp only [ofFrame, bind_eq_ok_iff, ofParts_eq_ok_iff, ← checkSendable_eq_ok_iff]
  constructor
  · rintro ⟨⟨⟩, hs, hp⟩
    exact ⟨hs, hp⟩
  · rintro ⟨hs, hp⟩
    exact ⟨(), hs, hp⟩

/-- There is a packet of a frame that was read in direction `d` exactly if it is a data
frame, and one of direction `d` or one without commands. -/
theorem ofFrame_of_decode_iff {d : Direction} {sent : Bytes} {f : Frame} {m : Metadata}
    {p : RouterPacket} (h : Frame.decode d sent = .ok f) :
    ofFrame f m = .ok p ↔
      f.messageType.isData = true ∧ (f.messageType.direction? = some d ∨ f.commands = []) ∧
        p.frame = f ∧ p.metadata = m := by
  obtain ⟨⟨payload, hp, hs⟩, ha⟩ := Frame.suits_of_decode h
  rw [ofFrame_eq_ok_iff]
  constructor
  · rintro ⟨he, -, -, hf, hm⟩
    obtain rfl : payload = .data p.payload := by
      rw [← hf] at hp
      exact (Option.some.inj hp).symm
    exact ⟨hs, (Frame.exists_encode_iff_of_decode h hs).1 (he hs), hf, hm⟩
  · rintro ⟨hd, hc, hf, hm⟩
    refine ⟨fun _ => (Frame.exists_encode_iff_of_decode h hd).2 hc, ?_,
      Frame.onAir_eq_self_iff.1 ha, hf, hm⟩
    exact MessageType.isJoin_of_isData hd

/-! ### Reading a packet -/

theorem directionOfTag_eq_ok_iff {t : UInt8} {d : Direction} :
    directionOfTag t = .ok d ↔ t = d.tag := by
  unfold directionOfTag
  rw [← Direction.ofTag?_eq_some_iff]
  split
  · simp [*]
  · simp [*]

/-- The decoder takes three fields apart and makes a packet of what they hold. -/
theorem decode_eq_ok_iff {bytes : Bytes} {p : RouterPacket} :
    decode bytes = .ok p ↔
      ∃ (d : Direction) (json sent : Bytes) (m : Metadata) (f : Frame),
        Piece.encodeAll [.field [d.tag], .field json, .field sent] = .ok bytes ∧
        Metadata.decode json = .ok m ∧ Frame.decode d sent = .ok f ∧ ofFrame f m = .ok p := by
  simp only [decode, bind_eq_ok_iff, mapError_eq_ok_iff, directionOfTag_eq_ok_iff,
    Piece.encodeAll_field_cons_eq_ok_iff, Piece.encodeAll_nil_eq_ok_iff]
  constructor
  · rintro ⟨⟨tag, rest₁⟩, h₁, ⟨json, rest₂⟩, h₂, ⟨sent, rest₃⟩, h₃, ⟨⟩, h₄, d, hd, m, hm, f, hf, hp⟩
    have h₁ := Field.sized_eq_ok_iff.1 h₁
    rw [Octets.toList_of_byte hd] at h₁
    exact ⟨d, json, sent, m, f, ⟨rest₁, h₁, rest₂, Field.required_eq_ok_iff.1 h₂, rest₃,
      Field.required_eq_ok_iff.1 h₃, Field.finish_eq_ok_iff.1 h₄⟩, hm, hf, hp⟩
  · rintro ⟨d, json, sent, m, f, ⟨rest₁, h₁, rest₂, h₂, rest₃, h₃, h₄⟩, hm, hf, hp⟩
    exact ⟨⟨⟨[d.tag], rfl⟩, rest₁⟩, Field.sized_eq_ok_iff.2 h₁, ⟨json, rest₂⟩,
      Field.required_eq_ok_iff.2 h₂, ⟨sent, rest₃⟩, Field.required_eq_ok_iff.2 h₃, (),
      Field.finish_eq_ok_iff.2 h₄, d, rfl, m, hm, f, hf, hp⟩

/-- **The decoder accepts exactly its grammar**: three fields with a tag, metadata and a
frame, which in the direction of the tag is read as a data frame. The tag is the direction
of its message type, or the frame has no commands. The packet holds that frame and those
metadata. -/
theorem decode_eq_ok_iff_grammar {bytes : Bytes} {p : RouterPacket} :
    decode bytes = .ok p ↔
      ∃ (t : UInt8) (d : Direction) (json sent : Bytes) (m : Metadata) (f : Frame),
        Piece.encodeAll [.field [t], .field json, .field sent] = .ok bytes ∧
        (t = 1 ∧ d = .up ∨ t = 2 ∧ d = .down) ∧
        Metadata.decode json = .ok m ∧ Frame.decode d sent = .ok f ∧
        f.messageType.isData = true ∧ (f.messageType.direction? = some d ∨ f.commands = []) ∧
        p.frame = f ∧ p.metadata = m := by
  have ht : ∀ {t : UInt8} {d : Direction}, t = d.tag ↔ t = 1 ∧ d = .up ∨ t = 2 ∧ d = .down := by
    intro t d
    cases d <;> simp [Direction.tag]
  rw [decode_eq_ok_iff]
  constructor
  · rintro ⟨d, json, sent, m, f, hb, hm, hf, hp⟩
    exact ⟨d.tag, d, json, sent, m, f, hb, ht.1 rfl, hm, hf, (ofFrame_of_decode_iff hf).1 hp⟩
  · rintro ⟨t, d, json, sent, m, f, hb, h, hm, hf, hp⟩
    obtain rfl := ht.2 h
    exact ⟨d, json, sent, m, f, hb, hm, hf, (ofFrame_of_decode_iff hf).2 hp⟩

/-- A downlink without commands under the tag of an uplink is accepted. -/
example :
    decode [0, 1, 1, 0, 2, 0x7B, 0x7D, 0, 12, 0x60, 0xDA, 0x1B, 0x01, 0x26, 0, 0x2A, 0, 1, 2, 3,
        4] =
      .ok ⟨.unconfirmedDataDown, ⟨⟨⟨⟨[0x26, 0x01, 0x1B, 0xDA], rfl⟩⟩,
        ⟨false, false, false, false⟩, 0x2A, []⟩, none, []⟩, ⟨[1, 2, 3, 4], rfl⟩, .empty⟩ := by
  cbv

end RouterPacket

end LoraRelay
