import LoraRelay.Packet.Router
import LoraRelay.Proofs.Frame.Reserved

/-!
# Frames read in the wrong direction

A reader is told the direction of a frame and may be told the wrong one. A request
and its answer share an identifier, so that the commands of a frame are then read as
other commands, or other bytes are. Such a frame goes no further.

## The model

`Frame.commands` are the commands of a frame, those of the header first. Whatever is
read in direction `d` are commands of direction `d`, so that the first of them, if
there is one, is refused in a frame of the other direction before anything else is
looked at. A frame without commands has nothing to misread: the
readers of both directions agree.

## What is proved

* `Frame.signed_of_decode_opposite` — the frame has no commands and is read the same
  in both directions, or its first command is what the encoder refuses.
* `Frame.misread_is_refused` — every operation that encodes a frame then fails with
  this one error, and no router packet is made of it.
-/

namespace LoraRelay

theorem Direction.ne_of_eq_opposite {d e : Direction} (h : e = d.opposite) : e ≠ d := by
  subst h
  cases d <;> decide

/-! ### The commands of a frame -/

/-- The command, if the element is one. -/
def PortItem.command? : PortItem → Option Command
  | data _ => none
  | command c => some c

/-- The commands of a data payload, those of the header before those on port zero. -/
def DataPayload.commands (p : DataPayload) : List Command :=
  p.header.options ++ p.items.filterMap PortItem.command?

/-- The commands of a frame. -/
def Frame.commands (f : Frame) : List Command := (f.data?.map DataPayload.commands).getD []

theorem PortItem.filterMap_command?_map (cs : List Command) :
    (cs.map command).filterMap command? = cs := by
  rw [List.filterMap_map]
  exact List.filterMap_some

theorem Frame.commands_data (m : MessageType) (p : DataPayload) (mic : Mic) :
    Frame.commands ⟨m, some (.data p), mic⟩ = p.commands :=
  rfl

namespace Command

/-! ### Sequences -/

theorem direction_of_decodeAll {d : Direction} {bytes : Bytes} {cs : List Command}
    (h : decodeAll d bytes = .ok cs) : ∀ c ∈ cs, c.direction = d := by
  rw [decodeAll_eq_ok_iff] at h
  induction h with
  | nil => simp
  | cons hb _ ih =>
    rintro c' (_ | ⟨_, hc'⟩)
    · exact (id_direction_of_ofBody? hb).2
    · exact ih c' hc'

theorem decodeAll_eq_nil_iff {d : Direction} {bytes : Bytes} :
    decodeAll d bytes = .ok [] ↔ bytes = [] := by
  constructor
  · intro h
    cases decodeAll_eq_ok_iff.1 h
    rfl
  · rintro rfl
    exact decodeAll_nil d

theorem encodeFor_of_direction_ne {d : Direction} {c : Command} (h : c.direction ≠ d) :
    c.encodeFor d = .error (.commandDirection c.id.number d) :=
  if_neg h

theorem encodeWithin_cons_of_direction_ne {d : Direction} {c : Command} (h : c.direction ≠ d)
    (room : Nat) (cs : List Command) :
    encodeWithin d room (c :: cs) = .error (.commandDirection c.id.number d) := by
  rw [encodeWithin, encodeFor_of_direction_ne h]
  rfl

end Command

/-! ### Headers and what is sent to a port -/

namespace FrameHeader

/-- A header with a command of the other direction is not encoded. -/
theorem encode_of_options_cons {h : FrameHeader} {d : Direction} {c : Command} {cs : List Command}
    (ho : h.options = c :: cs) (hc : c.direction ≠ d) :
    h.encode d = .error (.commandDirection c.id.number d) := by
  rw [encode, ho, Command.encodeWithin_cons_of_direction_ne hc]
  rfl

theorem direction_of_decode {d : Direction} {bytes rest : Bytes} {h : FrameHeader}
    (hd : decode d bytes = .ok (h, rest)) : ∀ c ∈ h.options, c.direction = d := by
  obtain ⟨_, _, _, _, _, _, -, -, hcs, rfl⟩ := decode_eq_ok_iff.1 hd
  exact Command.direction_of_decodeAll hcs

theorem decode_of_options_nil {d : Direction} {bytes rest : Bytes} {h : FrameHeader}
    (hd : decode d bytes = .ok (h, rest)) (ho : h.options = []) (e : Direction) :
    decode e bytes = .ok (h, rest) := by
  obtain ⟨address, control, lo, hi, options, cs, hb, hl, hcs, rfl⟩ := decode_eq_ok_iff.1 hd
  obtain rfl : cs = [] := ho
  refine decode_eq_ok_iff.2 ⟨address, control, lo, hi, options, [], hb, hl, ?_, rfl⟩
  rw [Command.decodeAll_eq_nil_iff] at hcs ⊢
  exact hcs

end FrameHeader

namespace PortItem

theorem direction_of_decodeFor {d : Direction} {port : UInt8} {bytes : Bytes}
    {items : List PortItem} (h : decodeFor d port bytes = .ok items) :
    ∀ c ∈ items.filterMap command?, c.direction = d := by
  unfold decodeFor at h
  split at h
  · obtain ⟨cs, hcs, rfl⟩ := map_eq_ok_iff.1 h
    rw [filterMap_command?_map]
    exact Command.direction_of_decodeAll hcs
  · cases h
    split <;> simp [command?]

theorem decodeFor_of_commands_nil {d : Direction} {port : UInt8} {bytes : Bytes}
    {items : List PortItem} (h : decodeFor d port bytes = .ok items)
    (hc : items.filterMap command? = []) (e : Direction) : decodeFor e port bytes = .ok items := by
  unfold decodeFor at h ⊢
  split at h
  · obtain ⟨cs, hcs, rfl⟩ := map_eq_ok_iff.1 h
    rw [filterMap_command?_map] at hc
    subst hc
    rw [if_pos ‹_›, Command.decodeAll_eq_nil_iff.2 (Command.decodeAll_eq_nil_iff.1 hcs)]
    rfl
  · rw [if_neg ‹_›]
    exact h

/-- What was read from a port and begins with a command of the other direction is not
encoded: it stands on port zero. -/
theorem encodeFor_of_commands_cons {d e : Direction} {port : UInt8} {bytes : Bytes}
    {items : List PortItem} {c : Command} {cs : List Command}
    (h : decodeFor e port bytes = .ok items) (hc : items.filterMap command? = c :: cs)
    (hd : c.direction ≠ d) :
    encodeFor d port items = .error (.commandDirection c.id.number d) := by
  unfold decodeFor at h
  split at h
  · obtain ⟨cs', -, rfl⟩ := map_eq_ok_iff.1 h
    rw [filterMap_command?_map] at hc
    subst hc
    rw [encodeFor, if_pos ‹_›, List.map_cons, encodeCommands, Command.encodeFor_of_direction_ne hd]
    rfl
  · cases h
    split at hc <;> cases hc

end PortItem

/-! ### Payloads -/

namespace DataPayload

theorem direction_of_decode {d : Direction} {bytes : Bytes} {p : DataPayload}
    (h : decode d bytes = .ok p) : ∀ c ∈ p.commands, c.direction = d := by
  obtain ⟨header, ⟨hh, rfl⟩ | ⟨port, rest, items, hh, hi, rfl⟩⟩ := decode_eq_ok_iff.1 h
  · intro c hc
    exact FrameHeader.direction_of_decode hh c (by simpa [commands] using hc)
  · intro c hc
    rcases List.mem_append.1 hc with hc | hc
    · exact FrameHeader.direction_of_decode hh c hc
    · exact PortItem.direction_of_decodeFor hi c hc

theorem decode_of_commands_nil {d : Direction} {bytes : Bytes} {p : DataPayload}
    (h : decode d bytes = .ok p) (hc : p.commands = []) (e : Direction) :
    decode e bytes = .ok p := by
  obtain ⟨ho, hi⟩ := List.append_eq_nil_iff.1 hc
  obtain ⟨header, ⟨hh, rfl⟩ | ⟨port, rest, items, hh, hr, rfl⟩⟩ := decode_eq_ok_iff.1 h
  · exact decode_eq_ok_iff.2 ⟨header, .inl ⟨FrameHeader.decode_of_options_nil hh ho e, rfl⟩⟩
  · exact decode_eq_ok_iff.2 ⟨header, .inr ⟨port, rest, items,
      FrameHeader.decode_of_options_nil hh ho e, PortItem.decodeFor_of_commands_nil hr hi e, rfl⟩⟩

/-- A payload that was read in one direction and has commands is not encoded in the
other: its first command is refused. -/
theorem encode_of_commands_cons {d : Direction} {bytes : Bytes} {p : DataPayload} {c : Command}
    {cs : List Command} (h : decode d.opposite bytes = .ok p) (hc : p.commands = c :: cs) :
    p.encode d = .error (.commandDirection c.id.number d) := by
  have hd : c.direction ≠ d :=
    Direction.ne_of_eq_opposite (direction_of_decode h c (hc ▸ List.mem_cons_self))
  cases ho : p.header.options with
  | cons c' cs' =>
    obtain ⟨rfl, -⟩ : c' = c ∧ _ := by simpa [commands, ho] using hc
    rw [encode, FrameHeader.encode_of_options_cons ho hd]
    rfl
  | nil =>
    have hi : p.items.filterMap PortItem.command? = c :: cs := by simpa [commands, ho] using hc
    obtain ⟨header, ⟨-, rfl⟩ | ⟨port, rest, items, hh, hr, rfl⟩⟩ := decode_eq_ok_iff.1 h
    · cases hi
    · have he : ∃ bytes, header.encode d = .ok bytes := by
        rw [FrameHeader.encode, show header.options = [] from ho]
        exact ⟨_, rfl⟩
      obtain ⟨front, he⟩ := he
      simp only [encode, he, PortItem.encodeFor_of_commands_cons hr hi hd]
      rfl

end DataPayload

/-! ### Frames -/

theorem RouterPacket.ofFrame_of_encode_eq_error {f : Frame} {e : FrameError}
    (hd : f.messageType.isData = true) (h : f.encode = .error e) (metadata : Metadata) :
    ofFrame f metadata = .error (.unsendableFrame e) := by
  rw [ofFrame, checkSendable, if_pos hd, h]
  rfl

namespace Frame

/-- The bytes are of a data message that travels in direction `d`. -/
def CarriesData (bytes : Bytes) (d : Direction) : Prop :=
  ∃ header ∈ bytes.head?, (MessageType.ofTopBits header).isData = true ∧
    (MessageType.ofTopBits header).direction? = some d

/-- What is wrong with everything before the code is wrong with every operation that
encodes the frame. -/
theorem fail_of_signed {f : Frame} {e : FrameError} (h : f.signed = .error e) :
    f.encode = .error e ∧ ∀ key, f.computeMic key = .error e ∧ f.sign key = .error e ∧
      (setMic key).run f = .error e f ∧ f.validateMic key = .error e := by
  have hc : f.cmacInput = .error e := by
    rw [cmacInput, h]
    rfl
  have hm : ∀ key, f.computeMic key = .error e := by
    intro key
    rw [computeMic, hc]
    rfl
  refine ⟨?_, fun key => ⟨hm key, ?_, run_setMic_of_error (hm key), ?_⟩⟩
  · rw [encode, h]
    rfl
  · rw [sign, hm]
    rfl
  · rw [validateMic, hm]
    rfl

/-- **What is misread is refused or was not misread**: a data frame that was read in the
wrong direction has no commands and is read the same in the right one, or its first
command is what is wrong with it. -/
theorem signed_of_decode_opposite {d : Direction} {bytes : Bytes} {f : Frame}
    (hd : f.messageType.isData = true) (he : f.messageType.direction? = some d)
    (h : decode d.opposite bytes = .ok f) :
    (f.commands = [] ∧ decode d bytes = .ok f) ∨
      ∃ c cs, f.commands = c :: cs ∧ f.signed = .error (.commandDirection c.id.number d) := by
  obtain ⟨header, body, m, p, mic, rfl, hl, hm, hp, rfl⟩ := decode_eq_ok_iff.1 h
  simp only at hd he
  rw [Payload.decode_of_isData hd] at hp
  obtain ⟨q, hq, rfl⟩ := map_eq_ok_iff.1 hp
  rw [commands_data]
  cases hc : q.commands with
  | nil =>
    refine .inl ⟨rfl, decode_eq_ok_iff.2 ⟨header, body, m, _, mic, rfl, hl, hm, ?_, rfl⟩⟩
    rw [Payload.decode_of_isData hd, DataPayload.decode_of_commands_nil hq hc]
    rfl
  | cons c cs =>
    refine .inr ⟨c, cs, rfl, ?_⟩
    simp only [signed, encodePayload, Payload.encode, he, DataPayload.encode_of_commands_cons hq hc]
    rfl

/-- **A frame that was read in the wrong direction is not passed on** with commands that
nobody sent. Either it has no commands and is the frame that the right direction gives,
or every operation that encodes it fails, names its first command and leaves it as it is,
and no router packet is made of it. -/
theorem misread_is_refused {d : Direction} {bytes : Bytes} {f : Frame}
    (hb : CarriesData bytes d) (h : decode d.opposite bytes = .ok f) :
    (f.commands = [] ∧ decode d bytes = .ok f) ∨
      ∃ c cs, f.commands = c :: cs ∧ f.encode = .error (.commandDirection c.id.number d) ∧
        (∀ key, f.computeMic key = .error (.commandDirection c.id.number d) ∧
          f.sign key = .error (.commandDirection c.id.number d) ∧
          (setMic key).run f = .error (.commandDirection c.id.number d) f ∧
          f.validateMic key = .error (.commandDirection c.id.number d)) ∧
        ∀ metadata, ∃ e, RouterPacket.ofFrame f metadata = .error e ∧ e.kind = .structural ∧
          e.cause = some (.frame (.commandDirection c.id.number d)) := by
  obtain ⟨header, hh, hd, he⟩ := hb
  obtain ⟨header', body, m, p, mic, rfl, -, hm, -, rfl⟩ := decode_eq_ok_iff.1 h
  obtain rfl : header' = header := by simpa using hh
  rw [← (MessageType.header_of_ofHeader hm).2] at hd he
  rcases signed_of_decode_opposite hd he h with hn | ⟨c, cs, hc, hs⟩
  · exact .inl hn
  · obtain ⟨hf, hk⟩ := fail_of_signed hs
    exact .inr ⟨c, cs, hc, hf, hk, fun metadata =>
      ⟨_, RouterPacket.ofFrame_of_encode_eq_error hd hf metadata, rfl, rfl⟩⟩

/-- An uplink with two answers that downwards is a single request. -/
theorem misread_is_refused_uplink :
    let bytes : Bytes :=
      [0x40, 0xDA, 0x1B, 0x01, 0x26, 0x85, 0x2A, 0x00, 0x03, 0x02, 0x06, 0xFF, 0x02, 1, 2, 3, 4]
    let f : Frame :=
      ⟨.unconfirmedDataUp, some (.data ⟨⟨⟨⟨[0x26, 0x01, 0x1B, 0xDA], rfl⟩⟩,
        ⟨true, false, false, false⟩, 0x2A, [.linkAdrReq 0 2 0xFF06 0 2]⟩, none, []⟩),
        ⟨[1, 2, 3, 4], rfl⟩⟩
    CarriesData bytes .up ∧ decode .down bytes = .ok f ∧
      ((f.commands = [] ∧ decode .up bytes = .ok f) ∨
        ∃ c cs, f.commands = c :: cs ∧ f.encode = .error (.commandDirection c.id.number .up) ∧
          (∀ key, f.computeMic key = .error (.commandDirection c.id.number .up) ∧
            f.sign key = .error (.commandDirection c.id.number .up) ∧
            (setMic key).run f = .error (.commandDirection c.id.number .up) f ∧
            f.validateMic key = .error (.commandDirection c.id.number .up)) ∧
          ∀ metadata, ∃ e, RouterPacket.ofFrame f metadata = .error e ∧ e.kind = .structural ∧
            e.cause = some (.frame (.commandDirection c.id.number .up))) := by
  intro bytes f
  have hb : CarriesData bytes .up := ⟨0x40, rfl, by decide, by decide⟩
  have h : decode .down bytes = .ok f := by cbv
  exact ⟨hb, h, misread_is_refused hb h⟩

end Frame

end LoraRelay
