import LoraRelay.Packet.Basic
import LoraRelay.Proofs.Outcome

/-!
# How reading a packet fails

A packet that cannot be read is malformed, and never one that the protocol does not cover:
a router packet can only be refused with that error when it is written. So whoever gets
bytes of any kind may drop those that are refused and carry on.

## The model

`FailsStructurally` says so of a single computation. It goes through the steps of a reader
(`FailsStructurally.bind`), and each step fails with errors of its own, all structural.
-/

namespace LoraRelay

variable {α β ε : Type}

/-- Every error of a computation is structural. -/
def FailsStructurally (x : Except PacketError α) : Prop :=
  ∀ e, x = .error e → e.kind = .structural

namespace FailsStructurally

theorem ok (a : α) : FailsStructurally (.ok a) := by
  rintro e ⟨⟩

theorem error {e : PacketError} (h : e.kind = .structural) :
    FailsStructurally (.error e : Except PacketError α) := by
  rintro _ ⟨⟩
  exact h

theorem bind {x : Except PacketError α} {f : α → Except PacketError β}
    (hx : FailsStructurally x) (hf : ∀ a, FailsStructurally (f a)) :
    FailsStructurally (x >>= f) := by
  intro e h
  rcases bind_eq_error_iff.1 h with h | ⟨a, -, h⟩
  · exact hx e h
  · exact hf a e h

theorem map {x : Except PacketError α} (hx : FailsStructurally x) (f : α → β) :
    FailsStructurally (x.map f) := by
  cases x with
  | error e => exact error (hx e rfl)
  | ok a => exact ok (f a)

theorem mapError (x : Except ε α) {f : ε → PacketError} (hf : ∀ e, (f e).kind = .structural) :
    FailsStructurally (x.mapError f) := by
  cases x with
  | error e => exact error (hf e)
  | ok a => exact ok a

end FailsStructurally

open FailsStructurally

/-! ### The parts -/

theorem Metadata.failsStructurally_decode (bytes : Bytes) : FailsStructurally (decode bytes) := by
  unfold decode
  split
  · exact ok _
  · exact error rfl

namespace Field

theorem failsStructurally_required (name : String) (bytes : Bytes) :
    FailsStructurally (required name bytes) :=
  mapError _ fun _ => rfl

theorem failsStructurally_sized (n : Nat) (name : String) (bytes : Bytes) :
    FailsStructurally (sized n name bytes) := by
  refine (failsStructurally_required name bytes).bind fun ⟨content, rest⟩ => ?_
  simp only
  split
  · exact ok _
  · exact error rfl

theorem failsStructurally_finish (kind : PacketKind) (rest : Bytes) :
    FailsStructurally (finish kind rest) := by
  unfold finish
  split
  · exact ok _
  · exact error rfl

end Field

theorem Carrier.failsStructurally_decode (bytes : Bytes) : FailsStructurally (decode bytes) :=
  (Field.failsStructurally_sized _ _ _).bind fun _ =>
    (Field.failsStructurally_sized _ _ _).bind fun _ =>
      (Field.failsStructurally_required _ _).bind fun _ => ok _

/-! ### Router and broker packets -/

namespace RouterPacket

/-- A frame that cannot make a packet is malformed. That its type has no direction is not
among the reasons. -/
theorem failsStructurally_ofFrame (f : Frame) (metadata : Metadata) :
    FailsStructurally (ofFrame f metadata) := by
  refine FailsStructurally.bind ?_ fun _ => ?_
  · unfold checkSendable
    split
    · exact (mapError _ fun _ => rfl).map _
    · exact ok _
  · unfold ofParts
    split
    · exact error rfl
    · split
      · exact error rfl
      · split
        · exact error rfl
        · exact ok _
    · exact error rfl

theorem failsStructurally_directionOfTag (tag : UInt8) :
    FailsStructurally (directionOfTag tag) := by
  unfold directionOfTag
  split
  · exact ok _
  · exact error rfl

theorem failsStructurally_decode (bytes : Bytes) : FailsStructurally (decode bytes) :=
  (Field.failsStructurally_sized _ _ _).bind fun _ =>
    (Field.failsStructurally_required _ _).bind fun _ =>
      (Field.failsStructurally_required _ _).bind fun _ =>
        (Field.failsStructurally_finish _ _).bind fun _ =>
          (failsStructurally_directionOfTag _).bind fun _ =>
            (Metadata.failsStructurally_decode _).bind fun _ =>
              (mapError _ fun _ => rfl).bind fun _ => failsStructurally_ofFrame _ _

end RouterPacket

namespace BrokerPacket

theorem failsStructurally_ofRouter (p : RouterPacket) : FailsStructurally (ofRouter p) := by
  unfold ofRouter
  split
  · split
    · exact error rfl
    · split
      · split
        · exact error rfl
        · exact ok _
      · exact error rfl
  · exact error rfl
  · exact error rfl

theorem failsStructurally_decode (bytes : Bytes) : FailsStructurally (decode bytes) :=
  (RouterPacket.failsStructurally_decode bytes).bind failsStructurally_ofRouter

end BrokerPacket

/-! ### The other packets -/

theorem HandlerPacket.failsStructurally_decode (bytes : Bytes) :
    FailsStructurally (decode bytes) :=
  (Carrier.failsStructurally_decode _).bind fun _ =>
    (Field.failsStructurally_required _ _).bind fun _ =>
      (Metadata.failsStructurally_decode _).bind fun _ =>
        (Field.failsStructurally_finish _ _).bind fun _ => ok _

namespace ApplicationPacket

theorem failsStructurally_decodeEntries (bytes : Bytes) :
    FailsStructurally (decodeEntries bytes) := by
  fun_induction decodeEntries bytes with
  | case1 => exact ok _
  | case2 => exact error rfl
  | case3 bytes content rest _ ih =>
    exact (Metadata.failsStructurally_decode content).bind fun _ => ih.bind fun _ => ok _

theorem failsStructurally_decode (bytes : Bytes) : FailsStructurally (decode bytes) := by
  refine (Field.failsStructurally_required _ _).bind fun _ =>
    (Field.failsStructurally_required _ _).bind fun _ =>
      (Field.failsStructurally_finish _ _).bind fun _ =>
        (failsStructurally_decodeEntries _).bind fun _ => ?_
  unfold make
  split
  · exact error rfl
  · exact ok _

end ApplicationPacket

theorem JoinPacket.failsStructurally_decode (bytes : Bytes) : FailsStructurally (decode bytes) := by
  refine (Carrier.failsStructurally_decode bytes).bind fun ⟨carrier, rest⟩ =>
    (Field.failsStructurally_finish _ _).bind fun _ => ?_
  split
  · exact ok _
  · exact error rfl

theorem AcceptPacket.failsStructurally_decode (bytes : Bytes) :
    FailsStructurally (decode bytes) := by
  refine (Carrier.failsStructurally_decode bytes).bind fun ⟨carrier, rest⟩ => ?_
  simp only
  split
  · unfold make
    split
    · exact error rfl
    · exact ok _
  · exact error rfl

/-! ### All kinds -/

/-- **Reading fails only with structural errors**, whatever the bytes and the kind. -/
theorem Packet.failsStructurally_decode (bytes : Bytes) (kind : PacketKind) :
    FailsStructurally (decode bytes kind) := by
  cases kind with
  | router => exact (RouterPacket.failsStructurally_decode bytes).map _
  | broker => exact (BrokerPacket.failsStructurally_decode bytes).map _
  | handler => exact (HandlerPacket.failsStructurally_decode bytes).map _
  | application => exact (ApplicationPacket.failsStructurally_decode bytes).map _
  | join => exact (JoinPacket.failsStructurally_decode bytes).map _
  | accept => exact (AcceptPacket.failsStructurally_decode bytes).map _

end LoraRelay
