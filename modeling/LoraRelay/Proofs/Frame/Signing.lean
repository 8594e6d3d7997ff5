import LoraRelay.Proofs.Frame.Integrity

/-!
# Signing frames

A frame is given its integrity code before it is sent, and the code is checked where it
arrives. Both sides compute it from the frame that they have, and not from the bytes: the
sender from one with a whole counter, the receiver from one that was read, where half of the
counter is missing.

## The model

`Frame.setMic` changes a frame that is kept. What a receiver does to check a data frame is
`Frame.withCounter`: it puts the counter that it keeps for the device into the frame.

## What is proved

* `exists_computeMic_iff_encode` — the frames with a code are those that can be sent, unless
  their format is their own.
* `validateMic_eq_true_iff` — a frame is valid if it holds the code that is computed for it.
* `setMic_validates` — a frame that was signed is valid, and so is what is read of it once
  the counter is whole again.
-/

namespace LoraRelay

namespace Payload

/-- The payload is one that a code is computed for. Formats of their own have none. -/
def isCoded : Payload → Bool
  | data _ | joinRequest _ | joinAccept _ => true
  | proprietary _ => false

/-- A payload with a code is read in messages of its kind, and these have a direction. -/
theorem exists_direction_of_suits {m : MessageType} {p : Payload} (hc : p.isCoded = true)
    (hs : p.Suits m) : ∃ d, m.direction? = some d := by
  cases p with
  | data p => exact MessageType.exists_direction_of_isData hs
  | joinRequest r =>
    cases hs
    exact ⟨.up, rfl⟩
  | joinAccept a =>
    cases hs
    exact ⟨.down, rfl⟩
  | proprietary bytes => cases hc

end Payload

namespace Frame

variable {f g : Frame} {key : Key} {code : Mic} {e : FrameError}

/-- The whole counter, if the frame carries data. -/
def counter? (f : Frame) : Option UInt32 := f.data?.map (·.header.counter)

/-- The frame with another counter, if it carries data. -/
def withCounter (counter : UInt32) (f : Frame) : Frame :=
  match f.payload with
  | some (.data p) =>
    { f with payload := some (.data { p with header := { p.header with counter } }) }
  | _ => f

/-! ### Computing a code -/

theorem exists_computeMic_iff :
    (∃ code, f.computeMic key = .ok code) ↔ f.IsCoded ∧ ∃ message, f.signed = .ok message := by
  constructor
  · rintro ⟨code, h⟩
    obtain ⟨input, hi, -⟩ := computeMic_eq_ok_iff.1 h
    obtain ⟨hc, message, hm, -⟩ := cmacInput_eq_ok_iff.1 hi
    exact ⟨hc, message, hm⟩
  · rintro ⟨hc, message, hm⟩
    exact ⟨_, computeMic_eq_ok_iff.2 ⟨_, cmacInput_eq_ok_iff.2 ⟨hc, message, hm, rfl⟩, rfl⟩⟩

theorem exists_direction_of_signed {p : DataPayload} {message : Bytes}
    (hp : f.payload = some (.data p)) (h : f.signed = .ok message) :
    ∃ d, f.direction? = some d := by
  obtain ⟨body, hb, -, -⟩ := signed_eq_ok_iff.1 h
  simp only [encodePayload, hp, Payload.encode] at hb
  split at hb
  · rename_i d hd
    exact ⟨d, hd⟩
  · cases hb

/-- **Codes are computed for what can be sent**: data, requests to join and answers. -/
theorem exists_computeMic_iff_encode :
    (∃ code, f.computeMic key = .ok code) ↔
      (∃ sent, f.encode = .ok sent) ∧ ∃ p, f.payload = some p ∧ p.isCoded = true := by
  rw [exists_computeMic_iff]
  constructor
  · rintro ⟨hc, message, hm⟩
    refine ⟨⟨_, encode_eq_ok_iff.2 ⟨message, hm, rfl⟩⟩, ?_⟩
    rcases hc with ⟨p, d, hp, -⟩ | ⟨p, hp, hj⟩
    · exact ⟨_, hp, rfl⟩
    · refine ⟨p, hp, ?_⟩
      rcases Payload.isJoin_iff.1 hj with ⟨r, rfl⟩ | ⟨a, rfl⟩ <;> rfl
  · rintro ⟨⟨sent, hs⟩, p, hp, hc⟩
    obtain ⟨message, hm, -⟩ := encode_eq_ok_iff.1 hs
    refine ⟨?_, message, hm⟩
    cases p with
    | data p =>
      obtain ⟨d, hd⟩ := exists_direction_of_signed hp hm
      exact .inl ⟨p, d, hp, hd⟩
    | joinRequest r => exact .inr ⟨_, hp, rfl⟩
    | joinAccept a => exact .inr ⟨_, hp, rfl⟩
    | proprietary bytes => cases hc

/-- **A frame is valid** if it holds the code that is computed for it. -/
theorem validateMic_eq_true_iff : f.validateMic key = .ok true ↔ f.computeMic key = .ok f.mic := by
  simp only [validateMic, bind_eq_ok_iff, pure_eq_ok_iff, decide_eq_true_eq, exists_eq_right]

/-! ### Setting a code -/

/-- A frame is signed with the code that is computed for it, and nothing else changes. -/
theorem run_setMic_eq_ok_iff :
    (setMic key).run f = .ok () g ↔
      ∃ code, f.computeMic key = .ok code ∧ g = { f with mic := code } := by
  cases h : f.computeMic key with
  | ok code =>
    rw [run_setMic_of_ok h]
    constructor
    · rintro ⟨⟩
      exact ⟨code, rfl, rfl⟩
    · rintro ⟨_, ⟨⟩, rfl⟩
      rfl
  | error e =>
    rw [run_setMic_of_error h]
    refine iff_of_false nofun ?_
    rintro ⟨_, ⟨⟩, -⟩

theorem run_setMic_eq_error_iff :
    (setMic key).run f = .error e g ↔ f.computeMic key = .error e ∧ g = f := by
  cases h : f.computeMic key with
  | ok code =>
    rw [run_setMic_of_ok h]
    refine iff_of_false nofun ?_
    rintro ⟨⟨⟩, -⟩
  | error e' =>
    rw [run_setMic_of_error h]
    constructor
    · rintro ⟨⟩
      exact ⟨rfl, rfl⟩
    · rintro ⟨⟨⟩, rfl⟩
      rfl

/-- The frame that is kept becomes the signed frame. -/
theorem sign_eq_ok_iff_run_setMic : f.sign key = .ok g ↔ (setMic key).run f = .ok () g := by
  simp only [sign, bind_eq_ok_iff, pure_eq_ok_iff, run_setMic_eq_ok_iff, eq_comm (a := g)]

/-! ### Checking a code -/

/-- With its counter put back, what is left of a data frame on the air is the frame. -/
theorem withCounter_onAir {c : UInt32} (h : f.counter? = some c) : f.onAir.withCounter c = f := by
  obtain ⟨m, _ | p, mic⟩ := f
  · cases h
  · cases p <;> cases h
    rfl

theorem onAir_of_counter?_eq_none (h : f.counter? = none) : f.onAir = f := by
  obtain ⟨m, _ | p, mic⟩ := f
  · rfl
  · cases p <;> first | rfl | cases h

/-- **A valid frame is valid where it arrives**, with the counter put back. -/
theorem decode_of_validateMic {p : Payload} {message : Bytes} (hv : f.validateMic key = .ok true)
    (hm : f.signed = .ok message) (hp : f.payload = some p) (hs : p.Suits f.messageType) :
    ∃ d received, f.direction? = some d ∧ decode d (message ++ f.mic.toList) = .ok received ∧
      (∀ c, f.counter? = some c → (received.withCounter c).validateMic key = .ok true) ∧
      (f.counter? = none → received.validateMic key = .ok true) := by
  obtain ⟨-, q, hq, hc⟩ := exists_computeMic_iff_encode.1 ⟨_, validateMic_eq_true_iff.1 hv⟩
  obtain rfl : q = p := Option.some.inj (hq.symm.trans hp)
  obtain ⟨d, hd⟩ := Payload.exists_direction_of_suits hc hs
  refine ⟨d, f.onAir, hd, decode_append_of_signed hp hs (.inr hd) hm, ?_, ?_⟩
  · intro c hcount
    rw [withCounter_onAir hcount]
    exact hv
  · intro hcount
    rw [onAir_of_counter?_eq_none hcount]
    exact hv

/-- **Signing agrees with sending, and the code survives the air.** A code is computed exactly
for the frames that can be sent, unless their format is their own, and does not depend on the
code that they hold. Signing fails with the error of that computation and leaves the frame; or
it changes the code only, to the signed frame, which is valid and sent with the code at its end.
What is read of it in its direction is valid, for data with the whole counter put back, if the
payload is of the kind of its message. -/
theorem setMic_validates (f : Frame) (key : Key) :
    ((∃ code, f.computeMic key = .ok code) ↔
      (∃ sent, f.encode = .ok sent) ∧ ∃ p, f.payload = some p ∧ p.isCoded = true) ∧
    (∀ mic, ({ f with mic } : Frame).computeMic key = f.computeMic key) ∧
    (∀ e g, (setMic key).run f = .error e g → f.computeMic key = .error e ∧ g = f) ∧
    (∀ g, f.sign key = .ok g ↔ (setMic key).run f = .ok () g) ∧
    ∀ g, (setMic key).run f = .ok () g →
      f.computeMic key = .ok g.mic ∧ g = { f with mic := g.mic } ∧ g.validateMic key = .ok true ∧
      ∃ message, g.encode = .ok (message ++ g.mic.toList) ∧
        ∀ p, f.payload = some p → p.Suits f.messageType →
          ∃ d received, f.direction? = some d ∧
            decode d (message ++ g.mic.toList) = .ok received ∧
            (∀ c, f.counter? = some c → (received.withCounter c).validateMic key = .ok true) ∧
            (f.counter? = none → received.validateMic key = .ok true) := by
  refine ⟨exists_computeMic_iff_encode, fun _ => rfl, fun e g => run_setMic_eq_error_iff.1,
    fun g => sign_eq_ok_iff_run_setMic, ?_⟩
  intro g hg
  obtain ⟨code, hcode, rfl⟩ := run_setMic_eq_ok_iff.1 hg
  obtain ⟨-, message, hm⟩ := exists_computeMic_iff.1 ⟨code, hcode⟩
  -- nothing computed depends on the code that a frame holds, so both facts are about the
  -- signed frame as well
  have hv : ({ f with mic := code } : Frame).validateMic key = .ok true :=
    validateMic_eq_true_iff.2 hcode
  have hsigned : ({ f with mic := code } : Frame).signed = .ok message := hm
  exact ⟨hcode, rfl, hv, message, encode_eq_ok_iff.2 ⟨message, hsigned, rfl⟩,
    fun p hp hs => decode_of_validateMic hv hsigned hp hs⟩

/-- A downlink with a counter that does not fit 16 bits, and a frame in a format of its own. -/
theorem setMic_validates_downlink :
    let p : DataPayload :=
      ⟨⟨⟨⟨[0x26, 0x01, 0x1B, 0xDA], rfl⟩⟩, ⟨true, false, true, false⟩, 0x1002A, [.devStatusReq]⟩,
        some 1, [.data [0xCA, 0xFE]]⟩
    let f : Frame := ⟨.confirmedDataDown, some (.data p), ⟨[1, 2, 3, 4], rfl⟩⟩
    let own : Frame := ⟨.proprietary, some (.proprietary [0xCA, 0xFE]), ⟨[1, 2, 3, 4], rfl⟩⟩
    let key : Key := ⟨Octets.zero 16⟩
    (∃ g, (setMic key).run f = .ok () g ∧ g.validateMic key = .ok true ∧
      ∃ message d received, g.encode = .ok (message ++ g.mic.toList) ∧ f.direction? = some d ∧
        decode d (message ++ g.mic.toList) = .ok received ∧
        (received.withCounter 0x1002A).validateMic key = .ok true) ∧
    (setMic key).run own = .error (.unsupportedType 0xE0) own ∧
      own.computeMic key = .error (.unsupportedType 0xE0) := by
  intro p f own key
  have hg : (setMic key).run f = .ok () { f with mic := Mic.ofMessage key _ } := rfl
  obtain ⟨-, -, hv, message, he, hr⟩ := (setMic_validates f key).2.2.2.2 _ hg
  obtain ⟨d, received, hd, hb, hc, -⟩ := hr (.data p) rfl (by decide)
  have hown : (setMic key).run own = .error (.unsupportedType 0xE0) own := rfl
  exact ⟨⟨_, hg, hv, message, d, received, he, hd, hb, hc _ rfl⟩, hown,
    ((setMic_validates own key).2.2.1 _ _ hown).1⟩

end Frame

end LoraRelay
