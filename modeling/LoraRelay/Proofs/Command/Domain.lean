import LoraRelay.Proofs.Command.Sequence
import Mathlib.Algebra.GroupWithZero.Nat

/-!
# Commands that can be sent

A writer of commands refuses what a reader could not give back: a command that travels
the other way, and one with a field that its bits cannot hold. `Command.Sendable` says so
without a writer, and nothing else is refused.

## What is proved

* `encodeAll_eq_ok_iff` — commands are written exactly if all of them can be sent, one
  after the other.
* `length_flatMap_toBytes` — how many bytes that takes.
-/

namespace LoraRelay.Command

/-- The command can be sent in direction `d`: it travels there, and every field fits. -/
def Sendable (d : Direction) (c : Command) : Prop := c.direction = d ∧ c.InRange

instance (d : Direction) (c : Command) : Decidable (c.Sendable d) :=
  inferInstanceAs (Decidable (_ ∧ _))

/-- The identifier of a command and its body. -/
def toBytes (c : Command) : Bytes := c.id.number :: c.encodeBody

theorem length_toBytes (c : Command) : c.toBytes.length = 1 + c.bodyLength := by
  rw [toBytes, List.length_cons, length_encodeBody, Nat.add_comm]

theorem encodeFor_eq_ok_iff {d : Direction} {c : Command} {bytes : Bytes} :
    c.encodeFor d = .ok bytes ↔ c.Sendable d ∧ bytes = c.toBytes := by
  unfold encodeFor encode
  split
  · rename_i hd
    split
    · rename_i hr
      simp [Sendable, hd, hr, toBytes, eq_comm]
    · rename_i hr
      simp [Sendable, hr]
  · rename_i hd
    simp [Sendable, hd]

/-- **Commands are written one after the other**, exactly if all of them can be sent. -/
theorem encodeAll_eq_ok_iff {d : Direction} {cs : List Command} {bytes : Bytes} :
    encodeAll d cs = .ok bytes ↔ (∀ c ∈ cs, c.Sendable d) ∧ bytes = cs.flatMap toBytes := by
  induction cs generalizing bytes with
  | nil => simp [encodeAll, eq_comm]
  | cons c cs ih =>
    simp only [encodeAll_cons_eq_ok_iff, encodeFor_eq_ok_iff, ih, List.forall_mem_cons,
      List.flatMap_cons]
    constructor
    · rintro ⟨_, _, ⟨hc, rfl⟩, ⟨hcs, rfl⟩, rfl⟩
      exact ⟨⟨hc, hcs⟩, rfl⟩
    · rintro ⟨⟨hc, hcs⟩, rfl⟩
      exact ⟨_, _, ⟨hc, rfl⟩, ⟨hcs, rfl⟩, rfl⟩

theorem length_flatMap_toBytes (cs : List Command) :
    (cs.flatMap toBytes).length = (cs.map fun c => 1 + c.bodyLength).sum := by
  simp only [List.length_flatMap, length_toBytes]

end LoraRelay.Command
