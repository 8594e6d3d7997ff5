import LoraRelay.Proofs.Field.Reader
import LoraRelay.Proofs.Frame.Grammar

/-!
# Bytes that are missing

A reader that finds too few bytes says how many it needs and how many it has. This is true
wherever it is said but in one place: a request to join is told to be too short whenever it has
not the one length that requests have, and so also when bytes follow it.

## The model

`Frame.CutShort` says by positions in the frame, and without a reader, which bytes are missing
and what is told of them. `Frame.OverlongRequest` are the frames of which something else is
wrong, but the same is told.

## What is proved

* `FrameHeader.decode_eq_tooShort_iff` and `JoinRequest.decode_eq_tooShort_iff` — when a header
  and a request are said to be too short, and with which numbers.
* `Frame.decode_eq_tooShort_iff` — a frame is said to be too short exactly if bytes of it are
  missing or it is a request with bytes behind it.
* `Frame.tooShort_is_truthful_iff` — the numbers told are those of a shortage exactly in the
  first case.
* `Frame.overlong_request_is_tooShort` — a request with a byte behind it.
-/

namespace LoraRelay

variable {d : Direction} {bytes body : Bytes} {expected actual : Nat}

/-! ### Headers and payloads -/

/-- The bytes do not begin with a whole frame header: so many are needed, and so many there. -/
inductive FrameHeader.CutShort (bytes : Bytes) : Nat → Nat → Prop where
  /-- Not even a header without commands is there. -/
  | fixed : bytes.length < 7 → CutShort bytes 7 bytes.length
  /-- The commands are not all there that the header announces. -/
  | options : 7 ≤ bytes.length → bytes.length < 7 + (bytes.getD 4 0).toNat % 16 →
      CutShort bytes (7 + (bytes.getD 4 0).toNat % 16) bytes.length

theorem FrameHeader.CutShort.actual_lt_expected (h : CutShort bytes expected actual) :
    actual < expected := by
  cases h with
  | fixed h => exact h
  | options _ h => exact h

/-- Commands are never said to be too short: the reader has other words for what is cut off. -/
theorem Command.decodeAll_ne_tooShort :
    decodeAll d bytes ≠ .error (.tooShort expected actual) := by
  intro h
  obtain ⟨_, h⟩ | ⟨_, h⟩ := truncated_or_unknown_of_decodeAll h <;> cases h

theorem PortItem.decodeFor_ne_tooShort {port : UInt8} :
    decodeFor d port bytes ≠ .error (.tooShort expected actual) := by
  intro h
  unfold decodeFor at h
  split at h
  · exact Command.decodeAll_ne_tooShort (map_eq_error_iff.1 h)
  · cases h

theorem FrameHeader.decode_of_length_lt (h : bytes.length < 7) :
    decode d bytes = .error (.tooShort 7 bytes.length) := by
  unfold decode
  split
  · rename_i address control lo hi tail hs
    rw [Octets.split?_eq_some_iff.1 hs, List.length_append, Octets.length_toList] at h
    simp only [List.length_cons] at h
    omega
  · rfl

theorem FrameHeader.getD_control (address : Octets 4) (control : UInt8) (rest : Bytes) :
    (address.toList ++ control :: rest).getD 4 0 = control := by
  obtain ⟨a, b, c, e, ha⟩ := List.length_eq_four.1 address.length_toList
  rw [ha]
  rfl

/-- **A header is said to be too short** exactly if it is cut short. -/
theorem FrameHeader.decode_eq_tooShort_iff :
    decode d bytes = .error (.tooShort expected actual) ↔ CutShort bytes expected actual := by
  rcases Nat.lt_or_ge bytes.length 7 with hl | hl
  · rw [decode_of_length_lt hl]
    constructor
    · rintro ⟨⟩
      exact .fixed hl
    · rintro (_ | ⟨h, _⟩)
      · rfl
      · exact absurd hl (Nat.not_lt.2 h)
  · obtain ⟨address, control, lo, hi, tail, rfl⟩ := Frame.exists_header_append hl
    have hcontrol : FrameControl.optionsLength control =
        ((address.toList ++ control :: lo :: hi :: tail).getD 4 0).toNat % 16 := by
      rw [getD_control, FrameControl.optionsLength, UInt8.toNat_mod]
      rfl
    have hlength : (address.toList ++ control :: lo :: hi :: tail).length = 7 + tail.length := by
      simp only [List.length_append, List.length_cons, Octets.length_toList]
      omega
    simp only [decode, Octets.split?_append]
    split
    · rename_i hs
      constructor
      · rintro ⟨⟩
        rw [minLength, hcontrol]
        refine .options hl ?_
        rw [← hcontrol, hlength]
        omega
      · rintro (h | ⟨_, h⟩)
        · exact absurd hl (Nat.not_le.2 h)
        · rw [minLength, hcontrol]
    · rename_i hs
      constructor
      · intro h
        obtain h | ⟨_, _, ⟨⟩⟩ := bind_eq_error_iff.1 h
        exact absurd h Command.decodeAll_ne_tooShort
      · rintro (h | ⟨_, h⟩)
        · exact absurd hl (Nat.not_le.2 h)
        · rw [← hcontrol, hlength] at h
          omega

/-- **The payload of a data frame is said to be too short** exactly if its header is. -/
theorem DataPayload.decode_eq_tooShort_iff :
    decode d bytes = .error (.tooShort expected actual) ↔
      FrameHeader.CutShort bytes expected actual := by
  rw [decode, bind_eq_error_iff, FrameHeader.decode_eq_tooShort_iff, or_iff_left_iff_imp]
  rintro ⟨⟨header, _ | ⟨port, rest⟩⟩, -, h⟩
  · cases h
  · obtain h | ⟨_, _, ⟨⟩⟩ := bind_eq_error_iff.1 h
    exact absurd h PortItem.decodeFor_ne_tooShort

/-- **A request is said to be too short** exactly if it has not the length of a request, be it
shorter or longer. -/
theorem JoinRequest.decode_eq_tooShort_iff :
    decode bytes = .error (.tooShort expected actual) ↔
      bytes.length ≠ 18 ∧ expected = 18 ∧ actual = bytes.length := by
  by_cases hl : bytes.length = 18
  · obtain ⟨r, hr⟩ := exists_decode_iff.2 hl
    simp [hr, hl]
  · rw [decode_of_length_ne hl]
    simp [hl, length, eq_comm]

/-- An answer is never said to be too short: of its length something else is said. -/
theorem JoinAccept.decode_ne_tooShort : decode bytes ≠ .error (.tooShort expected actual) := by
  intro h
  unfold decode at h
  split at h
  · cases h
  · cases h

/-- The payload of a message is said to be too short if it is one of a data message and its
header is cut short, or if it is one of a request and has not its length. -/
theorem Payload.decode_eq_tooShort_iff {m : MessageType} :
    decode m d bytes = .error (.tooShort expected actual) ↔
      m.isData = true ∧ FrameHeader.CutShort bytes expected actual ∨
        m = .joinRequest ∧ bytes.length ≠ 18 ∧ expected = 18 ∧ actual = bytes.length := by
  cases m
  case joinRequest =>
    rw [decode, map_eq_error_iff, JoinRequest.decode_eq_tooShort_iff]
    simp [MessageType.isData]
  case joinAccept =>
    rw [decode, map_eq_error_iff]
    exact iff_of_false JoinAccept.decode_ne_tooShort (by simp [MessageType.isData])
  case rejoinRequest => simp [decode, MessageType.isData]
  case proprietary => simp [decode, MessageType.isData]
  all_goals
    rw [decode, map_eq_error_iff, DataPayload.decode_eq_tooShort_iff]
    simp [MessageType.isData]

/-! ### Frames -/

theorem MessageType.not_isData_of_joinRequest {first : UInt8} {m : MessageType}
    (hr : ofHeader first = .ok .joinRequest) (hm : ofHeader first = .ok m) : ¬ m.isData = true := by
  rw [hr] at hm
  cases hm
  decide

namespace Frame

theorem length_cons_append_mic (first : UInt8) (body : Bytes) (mic : Mic) :
    (first :: (body ++ mic.toList)).length = body.length + 5 := by
  rw [List.length_cons, List.length_append, Octets.length_toList]

/-- Bytes of a frame are missing: so many are needed, and so many there. Behind the type and the
integrity code, only what stands between them is counted. -/
inductive CutShort (bytes : Bytes) : Nat → Nat → Prop where
  /-- The type and the integrity code are not both there. -/
  | frame : bytes.length < 5 → CutShort bytes 5 bytes.length
  /-- A data message has not even a header without commands. -/
  | header {m : MessageType} : MessageType.ofHeader (bytes.getD 0 0) = .ok m → m.isData = true →
      5 ≤ bytes.length → bytes.length < 12 → CutShort bytes 7 (bytes.length - 5)
  /-- A data message has not all the commands that its header announces. -/
  | options {m : MessageType} : MessageType.ofHeader (bytes.getD 0 0) = .ok m → m.isData = true →
      12 ≤ bytes.length → bytes.length < 12 + announced bytes →
        CutShort bytes (7 + announced bytes) (bytes.length - 5)
  /-- A request to join is not all there. -/
  | request : MessageType.ofHeader (bytes.getD 0 0) = .ok .joinRequest → 5 ≤ bytes.length →
      bytes.length < 23 → CutShort bytes 18 (bytes.length - 5)

/-- A request to join with bytes behind it. -/
structure OverlongRequest (bytes : Bytes) : Prop where
  /-- The first byte is that of a request. -/
  type : MessageType.ofHeader (bytes.getD 0 0) = .ok .joinRequest
  /-- There are more bytes than a request has. -/
  length_gt : 23 < bytes.length
  /-- There are not too many for a frame. -/
  length_le : bytes.length ≤ 255

theorem CutShort.actual_lt_expected (h : CutShort bytes expected actual) : actual < expected := by
  cases h with
  | frame h => exact h
  | header _ _ _ h => omega
  | options _ _ _ h => omega
  | request _ _ h => omega

theorem decode_of_length_lt (h : bytes.length < 5) :
    decode d bytes = .error (.tooShort 5 bytes.length) := by
  cases bytes with
  | nil => rfl
  | cons first rest =>
    cases hs : Octets.splitLast? 4 rest with
    | none => simp only [decode, hs]
    | some parts =>
      obtain ⟨body, mic⟩ := parts
      rw [Octets.splitLast?_eq_some_iff.1 hs, List.length_cons, List.length_append,
        Octets.length_toList] at h
      omega

/-- A frame with room for its type and its integrity code is said to be too short if it is not
too long and what stands between them is said to be. -/
theorem decode_cons_append_eq_tooShort_iff {first : UInt8} {mic : Mic} :
    decode d (first :: (body ++ mic.toList)) = .error (.tooShort expected actual) ↔
      body.length ≤ 250 ∧ ∃ m, MessageType.ofHeader first = .ok m ∧
        Payload.decode m d body = .error (.tooShort expected actual) := by
  have hl := length_cons_append_mic first body mic
  simp only [decode, Octets.splitLast?_append, hl, maxLength]
  split
  · rename_i hlong
    refine iff_of_false ?_ ?_
    · intro h
      cases h
    · rintro ⟨hle, -⟩
      omega
  · rename_i hle
    rw [bind_eq_error_iff]
    constructor
    · rintro (h | ⟨m, hm, h⟩)
      · unfold MessageType.ofHeader at h
        split at h <;> cases h
      · obtain h | ⟨p, -, ⟨⟩⟩ := bind_eq_error_iff.1 h
        exact ⟨by omega, m, hm, h⟩
    · rintro ⟨-, m, hm, h⟩
      exact .inr ⟨m, hm, bind_eq_error_iff.2 (.inl h)⟩

theorem announced_cons_append_mic (first : UInt8) (mic : Mic) (h : 7 ≤ body.length) :
    announced (first :: (body ++ mic.toList)) = (body.getD 4 0).toNat % 16 := by
  rw [announced, List.getD_cons_succ, List.getD_append _ _ _ _ (by omega)]

/-- A data message is cut short as a frame exactly if its header is cut short. -/
theorem cutShort_cons_append_iff_of_isData {first : UInt8} {mic : Mic} {m : MessageType}
    (hm : MessageType.ofHeader first = .ok m) (hd : m.isData = true) :
    CutShort (first :: (body ++ mic.toList)) expected actual ↔
      FrameHeader.CutShort body expected actual := by
  have hl := length_cons_append_mic first body mic
  have ht : MessageType.ofHeader ((first :: (body ++ mic.toList)).getD 0 0) = .ok m := hm
  constructor
  · intro h
    cases h with
    | frame h => omega
    | header _ _ _ h =>
      rw [hl, Nat.add_sub_cancel]
      exact .fixed (by omega)
    | options _ _ hge h =>
      have hge : 7 ≤ body.length := by omega
      rw [hl, announced_cons_append_mic first mic hge] at h
      rw [hl, Nat.add_sub_cancel, announced_cons_append_mic first mic hge]
      exact .options hge (by omega)
    | request hr => exact absurd hd (MessageType.not_isData_of_joinRequest hr ht)
  · intro h
    cases h with
    | fixed h =>
      have hc := CutShort.header ht hd (by omega) (by omega)
      rwa [hl, Nat.add_sub_cancel] at hc
    | options hge h =>
      have ha := announced_cons_append_mic first mic hge
      have hc := CutShort.options ht hd (by omega) (by omega)
      rwa [hl, ha, Nat.add_sub_cancel] at hc

/-- A request without its length is one that is cut short, or one with bytes behind it. -/
theorem cutShort_or_overlongRequest_iff {first : UInt8} {mic : Mic}
    (hm : MessageType.ofHeader first = .ok .joinRequest) (hle : body.length ≤ 250) :
    CutShort (first :: (body ++ mic.toList)) expected actual ∨
        OverlongRequest (first :: (body ++ mic.toList)) ∧ expected = 18 ∧ actual = body.length ↔
      body.length ≠ 18 ∧ expected = 18 ∧ actual = body.length := by
  have hl := length_cons_append_mic first body mic
  have ht : MessageType.ofHeader ((first :: (body ++ mic.toList)).getD 0 0) = .ok .joinRequest := hm
  constructor
  · rintro (h | ⟨h, rfl, rfl⟩)
    · cases h with
      | frame h => omega
      | header hm' hd => exact absurd hd (MessageType.not_isData_of_joinRequest ht hm')
      | options hm' hd => exact absurd hd (MessageType.not_isData_of_joinRequest ht hm')
      | request _ _ h => exact ⟨by omega, rfl, by rw [hl, Nat.add_sub_cancel]⟩
    · have := h.length_gt
      exact ⟨by omega, rfl, rfl⟩
  · rintro ⟨hne, rfl, rfl⟩
    rcases Nat.lt_or_gt_of_ne hne with hlt | hgt
    · have hc := CutShort.request ht (by omega) (by omega)
      rw [hl, Nat.add_sub_cancel] at hc
      exact .inl hc
    · exact .inr ⟨⟨ht, by omega, by omega⟩, rfl, rfl⟩

/-- Bytes are missing in data messages and in requests, and only where there are few. -/
theorem CutShort.exists_type (h : CutShort bytes expected actual) (hl : 5 ≤ bytes.length) :
    bytes.length ≤ 255 ∧ ∃ m, MessageType.ofHeader (bytes.getD 0 0) = .ok m ∧
      (m.isData = true ∨ m = .joinRequest) := by
  cases h with
  | frame h => omega
  | header hm hd _ h => exact ⟨by omega, _, hm, .inl hd⟩
  | options hm hd _ h =>
    have : announced bytes < 16 := Nat.mod_lt _ (by decide)
    exact ⟨by omega, _, hm, .inl hd⟩
  | request hm _ h => exact ⟨by omega, _, hm, .inr rfl⟩

/-- **A frame is said to be too short** exactly if bytes of it are missing, or if it is a request
to join with bytes behind it. -/
theorem decode_eq_tooShort_iff :
    decode d bytes = .error (.tooShort expected actual) ↔
      CutShort bytes expected actual ∨
        OverlongRequest bytes ∧ expected = 18 ∧ actual = bytes.length - 5 := by
  rcases Nat.lt_or_ge bytes.length 5 with hl | hl
  · rw [decode_of_length_lt hl]
    constructor
    · rintro ⟨⟩
      exact .inl (.frame hl)
    · rintro (h | ⟨h, -⟩)
      · cases h with
        | frame _ => rfl
        | header | options | request => omega
      · have := h.length_gt
        omega
  · cases bytes with
    | nil => simp at hl
    | cons first rest =>
      obtain ⟨body, mic, rfl⟩ := Octets.exists_append_toList_eq 4 (Nat.le_of_succ_le_succ hl)
      have hlength := length_cons_append_mic first body mic
      rw [decode_cons_append_eq_tooShort_iff, hlength, Nat.add_sub_cancel]
      constructor
      · rintro ⟨hle, m, hm, hp⟩
        rcases Payload.decode_eq_tooShort_iff.1 hp with ⟨hd, hc⟩ | ⟨rfl, hr⟩
        · exact .inl ((cutShort_cons_append_iff_of_isData hm hd).2 hc)
        · exact (cutShort_or_overlongRequest_iff hm hle).2 hr
      · intro h
        have htype : body.length ≤ 250 ∧ ∃ m, MessageType.ofHeader first = .ok m ∧
            (m.isData = true ∨ m = .joinRequest) := by
          rcases h with h | ⟨h, -⟩
          · obtain ⟨hle, hm⟩ := h.exists_type hl
            exact ⟨by omega, hm⟩
          · have := h.length_le
            exact ⟨by omega, _, h.type, .inr rfl⟩
        obtain ⟨hle, m, hm, hd | rfl⟩ := htype
        · rcases h with h | ⟨h, -⟩
          · have hc := (cutShort_cons_append_iff_of_isData hm hd).1 h
            exact ⟨hle, m, hm, Payload.decode_eq_tooShort_iff.2 (.inl ⟨hd, hc⟩)⟩
          · exact absurd hd (MessageType.not_isData_of_joinRequest h.type hm)
        · have hr := (cutShort_or_overlongRequest_iff hm hle).1 h
          exact ⟨hle, _, hm, Payload.decode_eq_tooShort_iff.2 (.inr ⟨rfl, hr⟩)⟩

/-- **A shortage that is told is one, but for requests with bytes behind them.** When a reader of
frames says that it needs some bytes and has others, fewer are there than needed, exactly unless
the frame is a request to join with more bytes behind it, of which the same is said. The reader
of data payloads and the reader of fields are always right, and the reader of requests exactly
of bytes that are not more than a request has. -/
theorem tooShort_is_truthful_iff (d : Direction) (bytes : Bytes) :
    ((∀ expected actual, decode d bytes = .error (.tooShort expected actual) →
      actual < expected) ↔ ¬ OverlongRequest bytes) ∧
    (OverlongRequest bytes →
      decode d bytes = .error (.tooShort 18 (bytes.length - 5)) ∧ 18 < bytes.length - 5) ∧
    (∀ expected actual, DataPayload.decode d bytes = .error (.tooShort expected actual) →
      actual < expected) ∧
    ((∀ expected actual, JoinRequest.decode bytes = .error (.tooShort expected actual) →
      actual < expected) ↔ bytes.length ≤ 18) ∧
    (18 < bytes.length → JoinRequest.decode bytes = .error (.tooShort 18 bytes.length)) ∧
    ∀ left expected actual,
      FieldReader.read.run bytes = .error (.truncated expected actual) left →
        actual < expected := by
  have hoverlong : OverlongRequest bytes →
      decode d bytes = .error (.tooShort 18 (bytes.length - 5)) ∧ 18 < bytes.length - 5 := by
    intro ho
    have := ho.length_gt
    exact ⟨decode_eq_tooShort_iff.2 (.inr ⟨ho, rfl, rfl⟩), by omega⟩
  have hlonger : 18 < bytes.length →
      JoinRequest.decode bytes = .error (.tooShort 18 bytes.length) := fun h =>
    JoinRequest.decode_eq_tooShort_iff.2 ⟨Nat.ne_of_gt h, rfl, rfl⟩
  refine ⟨⟨?_, ?_⟩, hoverlong, ?_, ⟨?_, ?_⟩, hlonger, ?_⟩
  · intro h ho
    obtain ⟨hd, hl⟩ := hoverlong ho
    exact Nat.lt_asymm hl (h _ _ hd)
  · intro ho expected actual h
    rcases decode_eq_tooShort_iff.1 h with hc | ⟨ho', -⟩
    · exact hc.actual_lt_expected
    · exact absurd ho' ho
  · intro expected actual h
    exact (DataPayload.decode_eq_tooShort_iff.1 h).actual_lt_expected
  · intro h
    refine Nat.not_lt.1 fun hl => ?_
    exact Nat.lt_asymm hl (h _ _ (hlonger hl))
  · intro hle expected actual h
    obtain ⟨hne, rfl, rfl⟩ := JoinRequest.decode_eq_tooShort_iff.1 h
    exact Nat.lt_of_le_of_ne hle hne
  · intro left expected actual h
    exact (FieldReader.run_read_eq_error_iff.1 h).1.actual_lt_expected

/-- A data message with one of the five bytes of commands that it announces, alone and in a
frame, a request with one byte missing, one with a byte behind it, and a field that is cut
short. -/
theorem tooShort_is_truthful_iff_cut_and_overlong :
    let body : Bytes := [0xDA, 0x1B, 0x01, 0x26, 0x05, 0x2A, 0x00, 0x02]
    let cut : Bytes := 0x40 :: (body ++ [1, 2, 3, 4])
    let request : Bytes := [1, 2, 3, 4, 5, 6, 7, 8, 9, 10, 11, 12, 13, 14, 15, 16, 17]
    let longer : Bytes := request ++ [18, 19]
    let overlong : Bytes := 0x00 :: (longer ++ [1, 2, 3, 4])
    (decode .up cut = .error (.tooShort 12 8) ∧ 8 < 12 ∧ ¬ OverlongRequest cut) ∧
    (OverlongRequest overlong ∧ decode .down overlong = .error (.tooShort 18 19)) ∧
    (DataPayload.decode .up body = .error (.tooShort 12 8) ∧ 8 < 12) ∧
    (JoinRequest.decode request = .error (.tooShort 18 17) ∧ 17 < 18) ∧
    JoinRequest.decode longer = .error (.tooShort 18 19) ∧
    FieldReader.read.run [0, 9, 1] = .error (.truncated 9 1) [0, 9, 1] ∧ 1 < 9 := by
  intro body cut request longer overlong
  have hcut : decode .up cut = .error (.tooShort 12 8) := by cbv
  have hnot : ¬ OverlongRequest cut := fun h => absurd h.length_gt (by decide)
  have hbody : DataPayload.decode .up body = .error (.tooShort 12 8) := by cbv
  have hrequest : JoinRequest.decode request = .error (.tooShort 18 17) := by cbv
  have hfield : FieldReader.read.run [0, 9, 1] = .error (.truncated 9 1) [0, 9, 1] := rfl
  have hoverlong : OverlongRequest overlong := ⟨by cbv, by decide, by decide⟩
  obtain ⟨hframe, -⟩ := tooShort_is_truthful_iff .up cut
  obtain ⟨-, hlong, -⟩ := tooShort_is_truthful_iff .down overlong
  obtain ⟨-, -, hdata, -⟩ := tooShort_is_truthful_iff .up body
  obtain ⟨-, -, -, hshort, -⟩ := tooShort_is_truthful_iff .up request
  obtain ⟨-, -, -, -, hlonger, -⟩ := tooShort_is_truthful_iff .up longer
  obtain ⟨-, -, -, -, -, hread⟩ := tooShort_is_truthful_iff .up [0, 9, 1]
  exact ⟨⟨hcut, hframe.2 hnot _ _ hcut, hnot⟩, ⟨hoverlong, (hlong hoverlong).1⟩,
    ⟨hbody, hdata _ _ hbody⟩, ⟨hrequest, hshort.2 (by decide) _ _ hrequest⟩,
    hlonger (by decide), hfield, hread _ _ _ hfield⟩

/-- A request to join with one byte behind it is said to be too short, with nineteen bytes where
eighteen are needed. -/
theorem overlong_request_is_tooShort :
    ¬ ((∀ d bytes expected actual, decode d bytes = .error (.tooShort expected actual) →
        actual < expected) ∧
      (∀ d bytes expected actual, DataPayload.decode d bytes = .error (.tooShort expected actual) →
        actual < expected) ∧
      (∀ bytes expected actual, JoinRequest.decode bytes = .error (.tooShort expected actual) →
        actual < expected) ∧
      ∀ bytes left expected actual,
        FieldReader.read.run bytes = .error (.truncated expected actual) left →
          actual < expected) := by
  rintro ⟨h, -⟩
  let bytes : Bytes :=
    [0x00, 0xDA, 0x1B, 0x01, 0x26, 0x00, 0x00, 0x00, 0x01, 0x18, 0x17, 0x16, 0x15, 0x14, 0x13,
      0x12, 0x11, 0xA1, 0xA2, 0xFF, 1, 2, 3, 4]
  have hb : decode .up bytes = .error (.tooShort 18 19) := by cbv
  exact absurd (h _ _ _ _ hb) (by decide)

end Frame

end LoraRelay
