import LoraRelay.Bytes

/-!
# The direction of a frame

A frame travels up, from a device to the network, or down. A request and its
answer share an identifier, so the direction decides how MAC commands are read;
it also enters the integrity code and is written in front of a router packet.
-/

namespace LoraRelay

/-- Where a frame travels. -/
inductive Direction where
  /-- From a device to the network. -/
  | up
  /-- From the network to a device. -/
  | down
  deriving DecidableEq

namespace Direction

/-- The other direction. -/
def opposite : Direction → Direction
  | up => down
  | down => up

/-- Whether frames travel to the network. -/
def isUp : Direction → Bool
  | up => true
  | down => false

/-- The direction with a given uplink flag. -/
def ofUp : Bool → Direction
  | true => up
  | false => down

/-- The tag in front of a router packet. -/
def tag : Direction → UInt8
  | up => 1
  | down => 2

/-- The direction with a given tag. -/
def ofTag? (tag : UInt8) : Option Direction :=
  if tag = 1 then some up else if tag = 2 then some down else none

/-- The direction byte of an integrity block. -/
def bit : Direction → UInt8
  | up => 0
  | down => 1

@[simp] theorem ofUp_isUp (d : Direction) : ofUp d.isUp = d := by
  cases d <;> rfl

@[simp] theorem isUp_ofUp (b : Bool) : (ofUp b).isUp = b := by
  cases b <;> rfl

@[simp] theorem ofTag?_tag (d : Direction) : ofTag? d.tag = some d := by
  cases d <;> rfl

theorem ofTag?_eq_some_iff {t : UInt8} {d : Direction} : ofTag? t = some d ↔ t = d.tag := by
  constructor
  · intro h
    unfold ofTag? at h
    split at h
    · cases h
      assumption
    · split at h
      · cases h
        assumption
      · cases h
  · rintro rfl
    exact ofTag?_tag d

end Direction

end LoraRelay
