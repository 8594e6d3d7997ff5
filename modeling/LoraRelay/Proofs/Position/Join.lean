import LoraRelay.Position.Join
import LoraRelay.Proofs.Position.Basic

/-!
# The nonce of a held join packet

The nonce of a held packet can be looked up as long as there are two bytes, and nothing but
the ways to make such a packet sees to it. What is made in the one spelling is what is made
in the other, so that a held packet is the spelling of a packet just if its payload has two
bytes.

## What is proved

* `JoinPacket.Held.ofFrame_eq` and `JoinPacket.Held.decode_eq` — both spellings agree.
* `JoinPacket.Held.devNonce_ne_outside_iff` — what a payload needs for its nonce.
-/

namespace LoraRelay

open Positional

namespace JoinPacket.Held

variable {q : Held}

/-! ### Making packets -/

theorem ofFrame_eq (f : Frame) (m : Metadata) :
    ofFrame f m = (JoinPacket.ofFrame f m).map held := by
  unfold ofFrame JoinPacket.ofFrame
  rcases f.payload with _ | _ | _ | _ <;> rfl

theorem decode_eq (bytes : Bytes) : decode bytes = (JoinPacket.decode bytes).map held := by
  unfold decode JoinPacket.decode
  cases Carrier.decode bytes with
  | error e => rfl
  | ok parts =>
    obtain ⟨carrier, rest⟩ := parts
    cases hf : Field.finish .join rest with
    | error e => simp only [bind, Except.bind, Except.map, hf]
    | ok u =>
      simp only [bind, Except.bind, hf, Octets.ofList?]
      by_cases hl : carrier.payload.length = 2
      · rw [if_neg (Decidable.not_not.2 hl), dif_pos hl]
        rfl
      · rw [if_pos hl, dif_neg hl]
        rfl

/-! ### The nonce by position -/

/-- **When the nonce can be looked up**: a payload of fewer than two bytes is left. -/
theorem devNonce_ne_outside_iff : q.devNonce ≠ outside ↔ 2 ≤ q.carrier.payload.length := by
  obtain ⟨⟨appEui, devEui, payload⟩, metadata⟩ := q
  rcases payload with _ | ⟨first, _ | ⟨second, rest⟩⟩
  · exact iff_of_false (fun h => h rfl) (by simp)
  · exact iff_of_false (fun h => h rfl) (by simp)
  · exact iff_of_true (inside_ne_outside _) (by simp)

/-- A held packet with a payload of two bytes is the spelling of a packet. -/
theorem exists_held_eq_iff : (∃ p : JoinPacket, p.held = q) ↔ q.carrier.payload.length = 2 := by
  constructor
  · rintro ⟨p, rfl⟩
    exact p.devNonce.length_toList
  · intro h
    exact ⟨⟨q.carrier.appEui, q.carrier.devEui, ⟨q.carrier.payload, h⟩, q.metadata⟩, rfl⟩

theorem devNonce_held (p : JoinPacket) : p.held.devNonce = inside (.ok p.devNonce) :=
  looks_toList p.devNonce

end JoinPacket.Held

end LoraRelay
