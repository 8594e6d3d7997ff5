import LoraRelay.Proofs.Frame.Grammar

/-!
# Where the fields of a data frame stand

The decoder takes a data frame apart from its front, and each reader knows only the bytes
that are left. Seen from the whole frame every field stands at a position of its own. Only
the bytes of commands in the header, of which there are as many as byte 5 announces, move
what comes after them.

## The model

`Frame.HeaderFields` and `Frame.Fields` say what a header and a payload hold by positions in
the frame that was received, counted from its first byte.

## What is proved

* `Frame.headerFields_append` — the header in front of its commands and of whatever follows.
* `Frame.fields_of_decode_data` — the payload, with what is sent to its port.
* `Frame.exists_fields_of_decode` — a data frame that was read holds the fields that stand in
  its bytes, and ends in its integrity code.
-/

namespace LoraRelay

namespace Frame

variable {d : Direction} {bytes : Bytes} {f : Frame} {p : DataPayload}

/-- What the header of a data frame holds, by positions in the frame. -/
structure HeaderFields (d : Direction) (bytes : Bytes) (h : FrameHeader) : Prop where
  /-- The address is sent with its least significant byte first. -/
  address : h.address.bytes.toList =
    [bytes.getD 4 0, bytes.getD 3 0, bytes.getD 2 0, bytes.getD 1 0]
  /-- The flags share a byte with the announcement. -/
  control : h.control = .ofByte (bytes.getD 5 0)
  /-- The counter is sent with its low byte first. -/
  counter : h.counter.toNat = (bytes.getD 6 0).toNat + 256 * (bytes.getD 7 0).toNat
  /-- The commands are as many bytes as announced. -/
  options : Command.decodeAll d (bytes.extract 8 (8 + announced bytes)) = .ok h.options

/-- What the payload of a data frame holds, by positions in the frame. -/
structure Fields (d : Direction) (bytes : Bytes) (p : DataPayload) : Prop where
  /-- The header comes after the message type. -/
  header : HeaderFields d bytes p.header
  /-- The type, the header with its commands, and the integrity code are there. -/
  length_ge : 12 + announced bytes ≤ bytes.length
  /-- Without more bytes there is no port. -/
  no_port : bytes.length = 12 + announced bytes → p.port = none ∧ p.items = []
  /-- The port comes after the commands, and between it and the code what is sent to it. -/
  on_port : 12 + announced bytes < bytes.length →
    ∃ port, bytes[8 + announced bytes]? = some port ∧ p.port = some port ∧
      PortItem.decodeFor d port (bytes.extract (9 + announced bytes) (bytes.length - 4)) =
        .ok p.items

/-! ### The header -/

/-- What stands in front of the commands of a header. -/
def front (first : UInt8) (address : Octets 4) (control lo hi : UInt8) : Bytes :=
  first :: (address.toList ++ [control, lo, hi])

section Front

variable (first : UInt8) (address : Octets 4) (control lo hi : UInt8)

theorem length_front : (front first address control lo hi).length = 8 := by
  simp [front]

theorem announced_front_append (rest : Bytes) :
    announced (front first address control lo hi ++ rest) = FrameControl.optionsLength control := by
  rw [announced_append (length_front ..), front, announced_cons_append]

/-- A header that was read holds the fields of the frame, whatever follows its commands. -/
theorem headerFields_append {control : UInt8} {options : Bytes} {cs : List Command}
    (hl : options.length = FrameControl.optionsLength control)
    (hcs : Command.decodeAll d options = .ok cs) (rest : Bytes) :
    HeaderFields d (front first address control lo hi ++ (options ++ rest))
      ⟨.ofWire address, .ofByte control, (ofLe16 lo hi).toUInt32, cs⟩ := by
  obtain ⟨a, b, c, e, ha⟩ := List.length_eq_four.1 address.length_toList
  constructor
  · show address.toList.reverse = _
    rw [front, ha]
    rfl
  · rw [front, ha]
    rfl
  · show (ofLe16 lo hi).toUInt32.toNat = _
    rw [UInt16.toNat_toUInt32, toNat_ofLe16, front, ha]
    rfl
  · rw [announced_front_append, ← hl, extract_append (length_front ..) rfl]
    exact hcs

end Front

/-! ### The payload -/

/-- What is read of the bytes between the first and the integrity code are the fields of the
frame. -/
theorem fields_of_decode_data {body : Bytes} (h : DataPayload.decode d body = .ok p)
    (first : UInt8) (mic : Mic) : Fields d (first :: (body ++ mic.toList)) p := by
  obtain ⟨⟨_, rest⟩, hh, hp⟩ := bind_eq_ok_iff.1 h
  obtain ⟨address, control, lo, hi, options, cs, rfl, hl, hcs, rfl⟩ :=
    FrameHeader.decode_eq_ok_iff.1 hh
  have hframe : first :: (address.toList ++ control :: lo :: hi :: (options ++ rest) ++
      mic.toList) = front first address control lo hi ++ (options ++ (rest ++ mic.toList)) := by
    simp [front]
  have hn : announced (front first address control lo hi ++ (options ++ (rest ++ mic.toList))) =
      options.length := by
    rw [announced_front_append, hl]
  have hlen : (front first address control lo hi ++ (options ++ (rest ++ mic.toList))).length =
      12 + options.length + rest.length := by
    simp only [List.length_append, length_front, Octets.length_toList]
    omega
  have hheader := headerFields_append first address lo hi hl hcs (rest ++ mic.toList)
  rw [hframe]
  cases rest with
  | nil =>
    cases hp
    refine ⟨hheader, ?_, fun _ => ⟨rfl, rfl⟩, ?_⟩
    · rw [hn, hlen]
      exact Nat.le_refl _
    · intro hlt
      rw [hn, hlen] at hlt
      exact absurd hlt (Nat.lt_irrefl _)
  | cons port more =>
    obtain ⟨items, hitems, hp⟩ := bind_eq_ok_iff.1 hp
    cases hp
    obtain ⟨hport, hmore⟩ :=
      port_append (length_front first address control lo _) options port more mic
    refine ⟨hheader, ?_, ?_, ?_⟩
    · rw [hn, hlen]
      exact Nat.le_add_right _ _
    · intro heq
      rw [hn, hlen, List.length_cons] at heq
      omega
    · intro _
      rw [hn]
      exact ⟨port, hport, rfl, hmore.symm ▸ hitems⟩

/-- **A data frame that was read holds the fields that stand in its bytes**, and the last four
of these are its integrity code. -/
theorem exists_fields_of_decode (h : decode d bytes = .ok f)
    (hd : (MessageType.ofTopBits (bytes.getD 0 0)).isData = true) :
    ∃ p, f.messageType = .ofTopBits (bytes.getD 0 0) ∧ f.payload = some (.data p) ∧
      f.mic.toList = bytes.drop (bytes.length - 4) ∧ Fields d bytes p := by
  obtain ⟨first, body, m, payload, mic, rfl, -, hm, hp, rfl⟩ := decode_eq_ok_iff.1 h
  obtain ⟨-, rfl⟩ := MessageType.ofHeader_eq_ok_iff.1 hm
  have hd : (MessageType.ofTopBits first).isData = true := hd
  rw [Payload.decode_of_isData hd] at hp
  obtain ⟨p, hbody, rfl⟩ := map_eq_ok_iff.1 hp
  refine ⟨p, rfl, rfl, ?_, fields_of_decode_data hbody first mic⟩
  simp

end Frame

end LoraRelay
