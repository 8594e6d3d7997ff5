import LoraRelay.Proofs.Frame.Reserved

/-!
# What the integrity code covers

The integrity code of a frame is computed from a byte string, `Frame.cmacInput`. For
a join message that is the message as it is sent; for data a block with direction,
address, whole counter and length goes in front.

## The model

`Frame.covered` is that string as a function of the message, and `Frame.IsCoded` says
for which frames there is one. A frame is given a code by what it holds and not by its
message type, so that data under the header of a join message has one too.

## What is proved

* `Frame.cmacInput_determines_frame` — the string determines everything but the code.
  The block and the first byte of a message cannot be confused, the message is read
  back in only one way, and the half of the counter that is not sent is in the block.
* `Frame.signed_of_decode_eq_take_iff` — a receiver encodes the frame again to check
  its code. What is covered then is what was received exactly if the reserved bits
  were zero.
-/

namespace LoraRelay

/-! ### The block in front of data -/

theorem le32_injective {v w : UInt32} (h : le32 v = le32 w) : v = w := by
  have h := congrArg Octets.toList h
  simp only [le32, List.cons.injEq, and_true, ← UInt8.toNat_inj] at h
  simp at h
  have := v.toNat_lt
  have := w.toNat_lt
  apply UInt32.toNat_inj.1
  omega

namespace Mic

theorem dataInput_injective {d d' : Direction} {a a' : DevAddr} {c c' : UInt32} {m m' : Bytes}
    (h : dataInput d a c m = dataInput d' a' c' m') : a = a' ∧ c = c' ∧ m = m' := by
  obtain ⟨hb, hm⟩ := List.append_inj h (by rw [length_dataBlock, length_dataBlock])
  obtain ⟨hb, -⟩ := List.append_inj' hb rfl
  obtain ⟨hb, hc⟩ := List.append_inj' hb (by simp)
  obtain ⟨-, ha⟩ := List.append_inj' hb (by simp)
  refine ⟨?_, le32_injective (Octets.ext hc), hm⟩
  rw [← DevAddr.ofWire_toWire a, ← DevAddr.ofWire_toWire a', Octets.ext ha]

/-- The last byte of the block is the length, if that fits one byte. -/
theorem toNat_getD_dataBlock (d : Direction) (a : DevAddr) (c : UInt32) {n : Nat}
    (h : n < 256) : ((dataBlock d a c n).getD 15 0).toNat = n := by
  obtain ⟨w, x, y, z, ha⟩ := List.length_eq_four.1 a.toWire.length_toList
  have : (dataBlock d a c n).getD 15 0 = UInt8.ofNat n := by
    rw [dataBlock, ha]
    rfl
  rw [this, UInt8.toNat_ofNat', Nat.mod_eq_of_lt h]

theorem head?_dataInput (d : Direction) (a : DevAddr) (c : UInt32) (m : Bytes) :
    (dataInput d a c m).head? = some 0x49 :=
  rfl

end Mic

/-! ### Messages with the same bytes -/

theorem MessageType.header_injective {m m' : MessageType} (h : m.header = m'.header) : m = m' := by
  rw [← ofTopBits_header m, h, ofTopBits_header]

/-- No message begins with the mark of the block. -/
theorem MessageType.header_ne_mark (m : MessageType) : m.header ≠ 0x49 := by
  cases m <;> decide

theorem JoinRequest.encode_injective {r r' : JoinRequest} (h : r.encode = r'.encode) : r = r' := by
  have hr := decode_encode r
  rw [h, decode_encode] at hr
  exact (Except.ok.inj hr).symm

theorem JoinAccept.encode_injective {a a' : JoinAccept} (h : a.encode = a'.encode) : a = a' := by
  have ha := decode_encode a
  rw [h, decode_encode] at ha
  exact (Except.ok.inj ha).symm

theorem JoinRequest.encode_ne_encode (r : JoinRequest) (a : JoinAccept) : r.encode ≠ a.encode := by
  intro h
  have hr := r.length_encode
  rw [h] at hr
  rcases a.length_encode with ha | ha
  · rw [ha] at hr
    cases hr
  · rw [ha] at hr
    cases hr

theorem DataPayload.eq_of_encode_eq {p p' : DataPayload} {d : Direction} {bytes : Bytes}
    (hp : p.encode d = .ok bytes) (hp' : p'.encode d = .ok bytes)
    (hc : p.header.counter = p'.header.counter) : p = p' := by
  have h := decode_of_encode hp
  rw [decode_of_encode hp'] at h
  obtain ⟨⟨address, control, counter, options⟩, port, items⟩ := p
  obtain ⟨⟨address', control', counter', options'⟩, port', items'⟩ := p'
  cases hc
  cases h
  rfl

namespace Payload

/-- The payload is one of the join procedure. -/
def isJoin : Payload → Bool
  | joinRequest _ | joinAccept _ => true
  | _ => false

theorem isJoin_iff {p : Payload} :
    p.isJoin = true ↔ (∃ r, p = joinRequest r) ∨ ∃ a, p = joinAccept a := by
  cases p <;> simp [isJoin]

theorem eq_of_encode_eq {m : MessageType} {p p' : Payload} {bytes : Bytes}
    (hj : p.isJoin = true) (hj' : p'.isJoin = true) (hp : p.encode m = .ok bytes)
    (hp' : p'.encode m = .ok bytes) : p = p' := by
  rw [← hp'] at hp
  rcases isJoin_iff.1 hj with ⟨r, rfl⟩ | ⟨a, rfl⟩ <;>
    rcases isJoin_iff.1 hj' with ⟨r', rfl⟩ | ⟨a', rfl⟩
  · rw [JoinRequest.encode_injective (Except.ok.inj hp)]
  · exact absurd (Except.ok.inj hp) (r.encode_ne_encode a')
  · exact absurd (Except.ok.inj hp).symm (r'.encode_ne_encode a)
  · rw [JoinAccept.encode_injective (Except.ok.inj hp)]

end Payload

/-! ### Frames that have a code -/

namespace Frame

/-- What the code of a frame covers, if `message` is what stands before the code. -/
def covered (f : Frame) (message : Bytes) : Bytes :=
  match f.payload, f.direction? with
  | some (.data p), some d => Mic.dataInput d p.header.address p.header.counter message
  | _, _ => message

/-- The frame has a code: it holds data and has a direction, or it is of the join
procedure. -/
def IsCoded (f : Frame) : Prop :=
  (∃ p d, f.payload = some (.data p) ∧ f.direction? = some d) ∨
    ∃ p, f.payload = some p ∧ p.isJoin = true

theorem covered_of_data {f : Frame} {p : DataPayload} {d : Direction}
    (hp : f.payload = some (.data p)) (hd : f.direction? = some d) (message : Bytes) :
    f.covered message = Mic.dataInput d p.header.address p.header.counter message := by
  rw [covered, hp, hd]

theorem covered_of_isJoin {f : Frame} {p : Payload} (hp : f.payload = some p)
    (hj : p.isJoin = true) (message : Bytes) : f.covered message = message := by
  rw [covered, hp]
  rcases Payload.isJoin_iff.1 hj with ⟨r, rfl⟩ | ⟨a, rfl⟩
  · rfl
  · rfl

theorem cmacInput_eq_ok_iff {f : Frame} {input : Bytes} :
    f.cmacInput = .ok input ↔
      f.IsCoded ∧ ∃ message, f.signed = .ok message ∧ input = f.covered message := by
  simp only [cmacInput, bind_eq_ok_iff, IsCoded, covered]
  cases hp : f.payload with
  | none => simp [throw_eq_ok_iff]
  | some p =>
    cases p with
    | data p =>
      cases hd : f.direction? with
      | none => simp [throw_eq_ok_iff, Payload.isJoin]
      | some d => simp [pure_eq_ok_iff, eq_comm (a := input)]
    | joinRequest r => simp [pure_eq_ok_iff, Payload.isJoin, eq_comm (a := input)]
    | joinAccept a => simp [pure_eq_ok_iff, Payload.isJoin, eq_comm (a := input)]
    | proprietary bs => simp [throw_eq_ok_iff, Payload.isJoin]

theorem computeMic_eq_ok_iff {f : Frame} {key : Key} {code : Mic} :
    f.computeMic key = .ok code ↔
      ∃ input, f.cmacInput = .ok input ∧ code = Mic.ofMessage key input := by
  simp only [computeMic, bind_eq_ok_iff, pure_eq_ok_iff, eq_comm (a := code)]

/-! ### The string determines the frame -/

/-- Messages with the same bytes have the same type, and their payloads the same
bytes. -/
theorem messageType_eq_of_signed_eq {f g : Frame} {message : Bytes}
    (hf : f.signed = .ok message) (hg : g.signed = .ok message) :
    f.messageType = g.messageType ∧
      ∃ body, f.encodePayload = .ok body ∧ g.encodePayload = .ok body := by
  obtain ⟨body, hb, rfl, -⟩ := signed_eq_ok_iff.1 hf
  obtain ⟨body', hb', h, -⟩ := signed_eq_ok_iff.1 hg
  obtain ⟨hm, rfl⟩ := List.cons.inj h
  exact ⟨MessageType.header_injective hm, body, hb, hb'⟩

theorem encodePayload_of_data {f : Frame} {p : DataPayload} {d : Direction}
    (hp : f.payload = some (.data p)) (hd : f.direction? = some d) :
    f.encodePayload = p.encode d := by
  rw [direction?] at hd
  simp only [encodePayload, hp, Payload.encode, hd]

theorem head?_ne_of_signed {f : Frame} {message : Bytes} (h : f.signed = .ok message) :
    message.head? ≠ some 0x49 := by
  obtain ⟨body, -, rfl, -⟩ := signed_eq_ok_iff.1 h
  intro hm
  exact f.messageType.header_ne_mark (Option.some.inj hm)

/-- What is covered determines message type and payload. -/
theorem eq_of_covered_eq {f g : Frame} {m m' : Bytes} (hf : f.IsCoded) (hg : g.IsCoded)
    (hm : f.signed = .ok m) (hm' : g.signed = .ok m') (h : f.covered m = g.covered m') :
    f.messageType = g.messageType ∧ f.payload = g.payload := by
  rcases hf with ⟨p, d, hp, hd⟩ | ⟨p, hp, hj⟩ <;> rcases hg with ⟨p', d', hp', hd'⟩ | ⟨p', hp', hj'⟩
  · -- two blocks: the half of the counter that the messages lack is in them
    rw [covered_of_data hp hd, covered_of_data hp' hd'] at h
    obtain ⟨-, hc, rfl⟩ := Mic.dataInput_injective h
    obtain ⟨ht, body, hb, hb'⟩ := messageType_eq_of_signed_eq hm hm'
    obtain rfl : d = d' := by
      rw [direction?, ht] at hd
      exact Option.some.inj (hd.symm.trans hd')
    rw [encodePayload_of_data hp hd] at hb
    rw [encodePayload_of_data hp' hd'] at hb'
    exact ⟨ht, by rw [hp, hp', DataPayload.eq_of_encode_eq hb hb' hc]⟩
  · -- a block and a message: their first bytes differ
    rw [covered_of_data hp hd, covered_of_isJoin hp' hj'] at h
    have hh := head?_ne_of_signed hm'
    rw [← h, Mic.head?_dataInput] at hh
    exact absurd rfl hh
  · rw [covered_of_isJoin hp hj, covered_of_data hp' hd'] at h
    have hh := head?_ne_of_signed hm
    rw [h, Mic.head?_dataInput] at hh
    exact absurd rfl hh
  · rw [covered_of_isJoin hp hj, covered_of_isJoin hp' hj'] at h
    subst h
    obtain ⟨ht, body, hb, hb'⟩ := messageType_eq_of_signed_eq hm hm'
    simp only [encodePayload, hp, hp', ← ht] at hb hb'
    exact ⟨ht, by rw [hp, hp', Payload.eq_of_encode_eq hj hj' hb hb']⟩

/-- **The integrity code is over the whole frame**: it is the code of a string that is put
under the CMAC, and frames with the same string, whatever their keys, differ in the code only.
For data the string is the block and the message, and the last byte of the block is the length
of the message. For a payload of the join procedure it is the message alone. -/
theorem cmacInput_determines_frame {f : Frame} {key : Key} {code : Mic}
    (hf : f.computeMic key = .ok code) :
    (∃ input, f.cmacInput = .ok input ∧ code = Mic.ofMessage key input ∧
      ∀ key', f.computeMic key' = .ok (Mic.ofMessage key' input)) ∧
    (∀ (g : Frame) key' code', g.computeMic key' = .ok code' → g.cmacInput = f.cmacInput →
      g = { f with mic := g.mic }) ∧
    (∀ p, f.payload = some (.data p) → ∃ d message, f.direction? = some d ∧
      f.signed = .ok message ∧ message.length < 256 ∧
      f.cmacInput = .ok
        (Mic.dataBlock d p.header.address p.header.counter message.length ++ message) ∧
      ((Mic.dataBlock d p.header.address p.header.counter message.length).getD 15 0).toNat =
        message.length) ∧
    ∀ p, f.payload = some p → p.isJoin = true →
      ∃ message, f.signed = .ok message ∧ f.cmacInput = .ok message := by
  obtain ⟨input, hi, rfl⟩ := computeMic_eq_ok_iff.1 hf
  have hcode : ∀ key', f.computeMic key' = .ok (Mic.ofMessage key' input) := fun key' =>
    computeMic_eq_ok_iff.2 ⟨input, hi, rfl⟩
  obtain ⟨hc, message, hm, rfl⟩ := cmacInput_eq_ok_iff.1 hi
  refine ⟨⟨_, hi, rfl, hcode⟩, ?_, ?_, ?_⟩
  · intro g key' code' hg h
    obtain ⟨input', hi', rfl⟩ := computeMic_eq_ok_iff.1 hg
    obtain ⟨hc', message', hm', rfl⟩ := cmacInput_eq_ok_iff.1 hi'
    rw [hi, hi'] at h
    obtain ⟨ht, hp⟩ := eq_of_covered_eq hc' hc hm' hm (Except.ok.inj h)
    obtain ⟨t, p, mic⟩ := g
    cases ht
    cases hp
    rfl
  · intro p hp
    rcases hc with ⟨p', d, hp', hd⟩ | ⟨p', hp', hj⟩
    · obtain rfl : p' = p := by simpa [hp] using hp'.symm
      have hl : message.length < 256 := by
        obtain ⟨body, -, -, hl⟩ := signed_eq_ok_iff.1 hm
        rw [maxLength] at hl
        omega
      refine ⟨d, message, hd, hm, hl, ?_, Mic.toNat_getD_dataBlock _ _ _ hl⟩
      rw [hi, covered_of_data hp hd, Mic.dataInput]
    · obtain rfl : p' = .data p := Option.some.inj (hp'.symm.trans hp)
      cases hj
  · intro p hp hj
    refine ⟨message, hm, ?_⟩
    rw [hi, covered_of_isJoin hp hj]

/-- A downlink with two codes and a counter that does not fit 16 bits, and a request. -/
theorem cmacInput_determines_frame_downlink :
    let p : DataPayload :=
      ⟨⟨⟨⟨[0x26, 0x01, 0x1B, 0xDA], rfl⟩⟩, ⟨true, false, true, false⟩, 0x1002A, [.devStatusReq]⟩,
        some 1, [.data [0xCA, 0xFE]]⟩
    let f : Frame := ⟨.confirmedDataDown, some (.data p), ⟨[1, 2, 3, 4], rfl⟩⟩
    let g : Frame := ⟨.confirmedDataDown, some (.data p), ⟨[5, 6, 7, 8], rfl⟩⟩
    let r : JoinRequest := ⟨⟨Octets.zero 8⟩, ⟨Octets.zero 8⟩, ⟨[0xA1, 0xA2], rfl⟩⟩
    let joining : Frame := ⟨.joinRequest, some (.joinRequest r), ⟨[1, 2, 3, 4], rfl⟩⟩
    let key : Key := ⟨Octets.zero 16⟩
    (∃ code, f.computeMic key = .ok code) ∧ (∃ code, g.computeMic key = .ok code) ∧
      (∃ code, joining.computeMic key = .ok code) ∧
      (∃ message, joining.signed = .ok message ∧ joining.cmacInput = .ok message) ∧
      g.cmacInput = f.cmacInput ∧ g = { f with mic := g.mic } ∧
      ∃ d message, f.direction? = some d ∧ f.signed = .ok message ∧ message.length < 256 ∧
        f.cmacInput = .ok
          (Mic.dataBlock d p.header.address p.header.counter message.length ++ message) ∧
        ((Mic.dataBlock d p.header.address p.header.counter message.length).getD 15 0).toNat =
          message.length := by
  intro p f g r joining key
  have hf : f.computeMic key = .ok (Mic.ofMessage key _) := rfl
  have hg : g.computeMic key = .ok (Mic.ofMessage key _) := rfl
  have hj : joining.computeMic key = .ok (Mic.ofMessage key _) := rfl
  have h : g.cmacInput = f.cmacInput := rfl
  obtain ⟨-, hs, hb, -⟩ := cmacInput_determines_frame hf
  obtain ⟨-, -, -, hm⟩ := cmacInput_determines_frame hj
  exact ⟨⟨_, hf⟩, ⟨_, hg⟩, ⟨_, hj⟩, hm _ rfl rfl, h, hs g key _ hg h, hb p rfl⟩

/-! ### What a receiver covers -/

/-- A frame that was read has a code, unless its format is its own. -/
theorem isCoded_of_decode {d : Direction} {bytes : Bytes} {f : Frame}
    (h : decode d bytes = .ok f) (hm : f.messageType ≠ .proprietary) : f.IsCoded := by
  obtain ⟨⟨p, hp, hs⟩, -⟩ := suits_of_decode h
  cases p with
  | data p =>
    obtain ⟨e, he⟩ := MessageType.exists_direction_of_isData hs
    exact .inl ⟨p, e, hp, he⟩
  | joinRequest r => exact .inr ⟨_, hp, rfl⟩
  | joinAccept a => exact .inr ⟨_, hp, rfl⟩
  | proprietary bs => exact absurd hs hm

theorem take_append_mic_of_decode {d : Direction} {bytes : Bytes} {f : Frame}
    (h : decode d bytes = .ok f) : bytes.take (bytes.length - 4) ++ f.mic.toList = bytes := by
  obtain ⟨header, body, m, p, mic, rfl, -, -, -, rfl⟩ := decode_eq_ok_iff.1 h
  simp

/-- **A receiver covers what was received with the reserved bits cleared**: this is
what was received, the code not counted, exactly if these bits were zero. -/
theorem signed_of_decode_eq_take_iff {d : Direction} {bytes : Bytes} {f : Frame}
    (hd : MayTravel bytes d) (h : decode d bytes = .ok f) (hm : f.messageType ≠ .proprietary) :
    ∃ message, f.signed = .ok message ∧ f.cmacInput = .ok (f.covered message) ∧
      (∀ key, f.validateMic key = .ok (Mic.ofMessage key (f.covered message) = f.mic)) ∧
      message = (clear (reserved d bytes) bytes).take (bytes.length - 4) ∧
      (message = bytes.take (bytes.length - 4) ↔ IsClear (reserved d bytes) bytes) := by
  obtain ⟨message, hs, hc⟩ := signed_of_decode hd h
  have hi : f.cmacInput = .ok (f.covered message) :=
    cmacInput_eq_ok_iff.2 ⟨isCoded_of_decode h hm, message, hs, rfl⟩
  have hr := take_append_mic_of_decode h
  have hl : bytes.length - 4 = message.length := by
    rw [← length_clear (length_reserved d bytes), hc]
    simp
  refine ⟨message, hs, hi, ?_, ?_, ?_⟩
  · intro key
    simp only [validateMic, computeMic, hi]
    rfl
  · rw [hc, hl, List.take_left]
  · calc message = bytes.take (bytes.length - 4)
        ↔ message ++ f.mic.toList = bytes.take (bytes.length - 4) ++ f.mic.toList :=
          (List.append_left_inj _).symm
      _ ↔ clear (reserved d bytes) bytes = bytes := by rw [hr, hc]
      _ ↔ IsClear (reserved d bytes) bytes := clear_eq_self_iff (length_reserved d bytes)

/-- An uplink with a command whose reserved bits are zero. -/
theorem signed_of_decode_eq_take_iff_uplink :
    let bytes : Bytes :=
      [0x40, 0xDA, 0x1B, 0x01, 0x26, 0x82, 0x2A, 0x00, 0x03, 0x07, 0x01, 0xCA, 0xFE,
        0x8B, 0xFD, 0x23, 0xDB]
    let f : Frame :=
      ⟨.unconfirmedDataUp, some (.data ⟨⟨⟨⟨[0x26, 0x01, 0x1B, 0xDA], rfl⟩⟩,
        ⟨true, false, false, false⟩, 0x2A, [.linkAdrAns true true true]⟩,
        some 1, [.data [0xCA, 0xFE]]⟩), ⟨[0x8B, 0xFD, 0x23, 0xDB], rfl⟩⟩
    MayTravel bytes .up ∧ decode .up bytes = .ok f ∧ f.messageType ≠ .proprietary ∧
      ∃ message, f.signed = .ok message ∧ f.cmacInput = .ok (f.covered message) ∧
        (∀ key, f.validateMic key = .ok (Mic.ofMessage key (f.covered message) = f.mic)) ∧
        message = (clear (reserved .up bytes) bytes).take (bytes.length - 4) ∧
        (message = bytes.take (bytes.length - 4) ↔ IsClear (reserved .up bytes) bytes) := by
  intro bytes f
  have hd : MayTravel bytes .up := by
    rintro _ ⟨⟩
    decide
  have h : decode .up bytes = .ok f := by cbv
  have hm : f.messageType ≠ .proprietary := by decide
  exact ⟨hd, h, hm, signed_of_decode_eq_take_iff hd h hm⟩

/-- The same uplink with a reserved bit of the command set: what is covered has that bit
cleared, so that a code over what was received is not the one compared. -/
theorem signed_ne_take_of_decode_uplink :
    ¬ ∀ (bytes : Bytes) (d : Direction) (f : Frame), MayTravel bytes d →
      decode d bytes = .ok f → f.messageType ≠ .proprietary →
      f.signed = .ok (bytes.take (bytes.length - 4)) := by
  intro h
  let bytes : Bytes :=
    [0x40, 0xDA, 0x1B, 0x01, 0x26, 0x82, 0x2A, 0x00, 0x03, 0x0F, 0x01, 0xCA, 0xFE,
      0x56, 0x6F, 0xF3, 0x8B]
  let f : Frame :=
    ⟨.unconfirmedDataUp, some (.data ⟨⟨⟨⟨[0x26, 0x01, 0x1B, 0xDA], rfl⟩⟩,
      ⟨true, false, false, false⟩, 0x2A, [.linkAdrAns true true true]⟩,
      some 1, [.data [0xCA, 0xFE]]⟩), ⟨[0x56, 0x6F, 0xF3, 0x8B], rfl⟩⟩
  have hd : MayTravel bytes .up := by
    rintro _ ⟨⟩
    decide
  have hb : decode .up bytes = .ok f := by cbv
  have hs : f.signed = .ok
      [0x40, 0xDA, 0x1B, 0x01, 0x26, 0x82, 0x2A, 0x00, 0x03, 0x07, 0x01, 0xCA, 0xFE] := by cbv
  have ht := h bytes .up f hd hb (by decide)
  rw [hs] at ht
  exact absurd (Except.ok.inj ht) (by decide)

end Frame

end LoraRelay
