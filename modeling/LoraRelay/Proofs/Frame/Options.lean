import LoraRelay.Proofs.Command.Domain
import LoraRelay.Proofs.Frame.Layout

/-!
# The commands in a frame header

A header has room for fifteen bytes of commands, whose number it tells in four bits of a byte
that it shares with the flags. The encoder takes the commands one after the other. It stops
at the first that is not a right one or for which no room is left, and does not look at those
behind it.

## The model

`Command.Refused` says, without an encoder, what is wrong with one command behind others that
take `used` bytes, and in which order it is asked. `Command.NoneRefused` says that nothing is
wrong with any command behind those in front of it.

## What is proved

* `Command.encodeWithin_eq_error_iff` — a writer with limited room fails with what is wrong
  with the first command that is refused.
* `FrameControl.toNat_toByte` — flags and number of bytes keep to their own bits.
* `FrameHeader.encode_stops_at_first_refused` — when a header is written and what it is
  written as, and otherwise which error is told.
-/

namespace LoraRelay

namespace Command

variable {d : Direction} {limit used room : Nat} {c : Command} {cs : List Command} {e : FrameError}

/-- How many bytes commands take one after the other. -/
def encodedLength (cs : List Command) : Nat := (cs.flatMap toBytes).length

@[simp] theorem encodedLength_nil : encodedLength [] = 0 := rfl

@[simp] theorem encodedLength_cons (c : Command) (cs : List Command) :
    encodedLength (c :: cs) = c.toBytes.length + encodedLength cs := by
  simp [encodedLength]

@[simp] theorem encodedLength_append (cs cs' : List Command) :
    encodedLength (cs ++ cs') = encodedLength cs + encodedLength cs' := by
  simp [encodedLength]

/-! ### One command -/

/-- A command is refused with `e` where there is room for `limit` bytes, of which others have
taken `used`. The first question is where it travels, the next whether its fields fit, and
the last whether there is room. -/
inductive Refused (d : Direction) (limit used : Nat) (c : Command) : FrameError → Prop where
  /-- It travels the other way. -/
  | direction (hd : c.direction ≠ d) : Refused d limit used c (.commandDirection c.id.number d)
  /-- It travels this way, but has a field that its bits cannot hold. -/
  | range (hd : c.direction = d) (hr : ¬ c.InRange) :
      Refused d limit used c (.commandFieldOutOfRange c.id.number)
  /-- It could be sent, but takes more bytes than are left. -/
  | room (hs : c.Sendable d) (hl : limit < used + c.toBytes.length) :
      Refused d limit used c .optionsTooLong

/-- Nothing is wrong with a command exactly if it can be sent and there is room for it. -/
theorem forall_not_refused_iff :
    (∀ e, ¬ c.Refused d limit used e) ↔ c.Sendable d ∧ used + c.toBytes.length ≤ limit := by
  constructor
  · intro h
    have hd : c.direction = d := Decidable.not_not.1 fun hd => h _ (.direction hd)
    have hr : c.InRange := Decidable.not_not.1 fun hr => h _ (.range hd hr)
    exact ⟨⟨hd, hr⟩, Nat.not_lt.1 fun hl => h _ (.room ⟨hd, hr⟩ hl)⟩
  · rintro ⟨⟨hd, hr⟩, hl⟩ e h
    cases h with
    | direction hd' => exact hd' hd
    | range _ hr' => exact hr' hr
    | room _ hl' => exact Nat.not_lt.2 hl hl'

theorem encodeFor_eq_error_iff :
    c.encodeFor d = .error e ↔
      c.direction ≠ d ∧ e = .commandDirection c.id.number d ∨
        c.direction = d ∧ ¬ c.InRange ∧ e = .commandFieldOutOfRange c.id.number := by
  unfold encodeFor encode
  by_cases hd : c.direction = d
  · by_cases hr : c.InRange <;> simp [hd, hr, eq_comm]
  · simp [hd, eq_comm]

/-- What is wrong with a command is found out before it is written or, if it can be sent,
from the room that is left. -/
theorem refused_iff :
    c.Refused d limit used e ↔
      c.encodeFor d = .error e ∨
        c.Sendable d ∧ limit < used + c.toBytes.length ∧ e = .optionsTooLong := by
  rw [encodeFor_eq_error_iff]
  constructor
  · rintro (hd | ⟨hd, hr⟩ | ⟨hs, hl⟩)
    · exact .inl (.inl ⟨hd, rfl⟩)
    · exact .inl (.inr ⟨hd, hr, rfl⟩)
    · exact .inr ⟨hs, hl, rfl⟩
  · rintro ((⟨hd, rfl⟩ | ⟨hd, hr, rfl⟩) | ⟨hs, hl, rfl⟩)
    · exact .direction hd
    · exact .range hd hr
    · exact .room hs hl

/-! ### Commands behind others -/

/-- No command is refused behind those in front of it. -/
def NoneRefused (d : Direction) (limit : Nat) (cs : List Command) : Prop :=
  ∀ before c after, cs = before ++ c :: after →
    ∀ e, ¬ c.Refused d limit (encodedLength before) e

theorem noneRefused_iff :
    NoneRefused d limit cs ↔ (∀ c ∈ cs, c.Sendable d) ∧ encodedLength cs ≤ limit := by
  constructor
  · intro h
    constructor
    · intro c hc
      obtain ⟨before, after, rfl⟩ := List.append_of_mem hc
      exact (forall_not_refused_iff.1 (h before c after rfl)).1
    · -- the last command sees what all those in front of it take
      rcases List.eq_nil_or_concat cs with rfl | ⟨before, c, rfl⟩
      · exact Nat.zero_le _
      · have hl := (forall_not_refused_iff.1 (h before c [] (List.concat_eq_append ..))).2
        simpa using hl
  · rintro ⟨hs, hl⟩ before c after rfl
    have hc : c.Sendable d := hs c (by simp)
    rw [encodedLength_append, encodedLength_cons] at hl
    exact forall_not_refused_iff.2 ⟨hc, by omega⟩

/-- A writer with limited room fails at the first command, or writes it and fails at one of
the others. -/
theorem encodeWithin_cons_eq_error_iff :
    encodeWithin d room (c :: cs) = .error e ↔
      c.encodeFor d = .error e ∨
        c.Sendable d ∧ room < c.toBytes.length ∧ e = .optionsTooLong ∨
        c.Sendable d ∧ c.toBytes.length ≤ room ∧
          encodeWithin d (room - c.toBytes.length) cs = .error e := by
  rw [encodeWithin, bind_eq_error_iff]
  simp only [encodeFor_eq_ok_iff, and_assoc, exists_and_left, exists_eq_left]
  rw [← and_or_left]
  refine or_congr_right (and_congr_right fun _ => ?_)
  by_cases hl : room < c.toBytes.length
  · rw [if_pos hl]
    simp [hl, Nat.not_le.2 hl, bind, Except.bind, throw, throwThe, MonadExceptOf.throw, eq_comm]
  · rw [if_neg hl, bind_eq_error_iff]
    simp [hl, Nat.not_lt.1 hl, pure, Except.pure]

/-- **A writer with limited room fails with the first command that is refused**, whatever
comes behind it. -/
theorem encodeWithin_eq_error_iff (hu : used ≤ limit) :
    encodeWithin d (limit - used) cs = .error e ↔
      ∃ before c after, cs = before ++ c :: after ∧ (∀ b ∈ before, b.Sendable d) ∧
        used + encodedLength before ≤ limit ∧
        c.Refused d limit (used + encodedLength before) e := by
  induction cs generalizing used with
  | nil => simp [encodeWithin]
  | cons c cs ih =>
    have hroom : limit - used < c.toBytes.length ↔ limit < used + c.toBytes.length := by omega
    rw [encodeWithin_cons_eq_error_iff, ← or_assoc, hroom, ← refused_iff]
    constructor
    · rintro (hc | ⟨hs, hl, h⟩)
      · exact ⟨[], c, cs, rfl, by simp, hu, hc⟩
      · rw [Nat.sub_sub, ih (by omega)] at h
        obtain ⟨before, b, after, rfl, hb, hfit, hr⟩ := h
        rw [Nat.add_assoc, ← encodedLength_cons] at hfit hr
        exact ⟨c :: before, b, after, rfl, List.forall_mem_cons.2 ⟨hs, hb⟩, hfit, hr⟩
    · rintro ⟨_ | ⟨_, before⟩, b, after, h, hb, hfit, hr⟩
      · cases h
        exact .inl hr
      · cases h
        obtain ⟨hs, hb⟩ := List.forall_mem_cons.1 hb
        rw [encodedLength_cons, ← Nat.add_assoc] at hfit hr
        refine .inr ⟨hs, by omega, ?_⟩
        rw [Nat.sub_sub, ih (by omega)]
        exact ⟨before, b, after, rfl, hb, hfit, hr⟩

end Command

/-! ### The byte with the flags -/

/-- **Flags and number of bytes keep to their own bits**: the number is the low nibble, and
each flag is one bit of the high one. -/
theorem FrameControl.toNat_toByte (f : FrameControl) {n : Nat} (h : n ≤ 15) :
    (f.toByte n).toNat =
      128 * f.adr.toNat + 64 * f.adrAckReq.toNat + 32 * f.ack.toNat + 16 * f.fPending.toNat +
        n := by
  have key : ∀ (a b c d : Bool) (n : Fin 16), (toByte ⟨a, b, c, d⟩ n).toNat =
      128 * a.toNat + 64 * b.toNat + 32 * c.toNat + 16 * d.toNat + n := by
    decide +kernel
  exact key f.adr f.adrAckReq f.ack f.fPending ⟨n, Nat.lt_succ_of_le h⟩

/-! ### The header -/

namespace FrameHeader

open Command

/-- A header is refused for its commands only. -/
theorem encode_eq_error_iff {h : FrameHeader} {d : Direction} {e : FrameError} :
    h.encode d = .error e ↔ encodeWithin d maxOptions h.options = .error e := by
  rw [encode, bind_eq_error_iff]
  simp [pure, Except.pure]

theorem encode_of_noneRefused {h : FrameHeader} {d : Direction}
    (hn : NoneRefused d maxOptions h.options) :
    h.encode d = .ok (h.address.toWire.toList ++
      h.control.toByte (encodedLength h.options) :: (le16 h.counter.toUInt16).toList ++
        h.options.flatMap toBytes) := by
  obtain ⟨hs, hl⟩ := noneRefused_iff.1 hn
  exact encode_eq_ok_iff.2 ⟨_, encodeAll_eq_ok_iff.2 ⟨hs, rfl⟩, hl, rfl⟩

/-- **The encoder of headers stops at the first command that is refused**, and tells what is
wrong with it: that it travels the other way, else that a field is out of range, else that
with it the commands take more than fifteen bytes. If no command is refused, the header is
written: seven bytes and those of the commands. The low nibble of the control byte is then
the number of the latter, whole, and the high nibble holds the four flags. -/
theorem encode_stops_at_first_refused (h : FrameHeader) (d : Direction) :
    (∀ e, h.encode d = .error e ↔
      ∃ before c after, h.options = before ++ c :: after ∧ NoneRefused d 15 before ∧
        c.Refused d 15 (encodedLength before) e) ∧
    (NoneRefused d 15 h.options → ∃ bytes control,
      h.encode d = .ok bytes ∧ bytes.length = 7 + encodedLength h.options ∧
        bytes.drop 7 = h.options.flatMap toBytes ∧ bytes[4]? = some control ∧
        control.toNat % 16 = encodedLength h.options ∧
        control.toNat / 16 = 8 * h.control.adr.toNat + 4 * h.control.adrAckReq.toNat +
          2 * h.control.ack.toNat + h.control.fPending.toNat) := by
  constructor
  · intro e
    have hw : encodeWithin d (maxOptions - 0) h.options = .error e ↔ _ :=
      encodeWithin_eq_error_iff (Nat.zero_le maxOptions)
    simp only [Nat.sub_zero, Nat.zero_add] at hw
    simp only [encode_eq_error_iff, hw, noneRefused_iff, and_assoc]
    rfl
  · intro hn
    have hl := (noneRefused_iff.1 hn).2
    have hbyte := FrameControl.toNat_toByte h.control hl
    refine ⟨_, h.control.toByte (encodedLength h.options), encode_of_noneRefused hn, ?_, ?_, ?_,
      by omega, by omega⟩
    · simp only [List.length_append, List.length_cons, Octets.length_toList, encodedLength]
    · rw [List.drop_left' (by simp)]
    · rw [List.append_assoc, List.getElem?_append_right (by simp)]
      simp

/-- A downlink whose commands take all of the fifteen bytes, and one in which the last but
one finds no room and the last travels the other way. -/
theorem encode_stops_at_first_refused_full_and_overfull :
    let full : FrameHeader :=
      ⟨⟨⟨[0x26, 0x01, 0x1B, 0xDA], rfl⟩⟩, ⟨true, false, true, false⟩, 0x1002A,
        [.newChannelReq 3 867100000 5 0, .linkAdrReq 5 2 0x00FF 6 1, .linkCheckAns 20 3,
          .devStatusReq]⟩
    let overfull : FrameHeader :=
      { full with options := full.options ++ [.dutyCycleReq 15, .linkCheckReq] }
    NoneRefused .down 15 full.options ∧
      (∃ bytes control, full.encode .down = .ok bytes ∧ bytes.length = 22 ∧
        bytes[4]? = some control ∧ control.toNat % 16 = 15 ∧ control.toNat / 16 = 10) ∧
      overfull.encode .down = .error .optionsTooLong := by
  intro full overfull
  have hn : NoneRefused .down 15 full.options := noneRefused_iff.2 (by decide)
  have hr : (dutyCycleReq 15).Refused .down 15 (encodedLength full.options) .optionsTooLong :=
    .room (by decide) (by decide)
  obtain ⟨bytes, control, he, hl, -, hc, hlow, hhigh⟩ :=
    (encode_stops_at_first_refused full .down).2 hn
  exact ⟨hn, ⟨bytes, control, he, hl, hc, hlow, hhigh⟩,
    ((encode_stops_at_first_refused overfull .down).1 _).2
      ⟨full.options, _, [.linkCheckReq], rfl, hn, hr⟩⟩

end FrameHeader

end LoraRelay
