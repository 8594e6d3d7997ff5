import LoraRelay.Direction

/-!
# What is wrong with a frame

The causes for which a frame, or a part of one, is refused by the encoder, the
decoder or the integrity check, and their wording.
-/

namespace LoraRelay

/-- Why a frame is refused. -/
inductive FrameError where
  /-- Fewer bytes than the fixed fields take. -/
  | tooShort (expected actual : Nat)
  /-- A join accept of neither 12 nor 28 bytes. -/
  | joinAcceptLength (length : Nat)
  /-- A major version other than R1. -/
  | unsupportedMajor (version : UInt8)
  /-- A message type that the operation does not handle. -/
  | unsupportedType (header : UInt8)
  /-- A command identifier that is not known. -/
  | unknownCommand (number : UInt8) (direction : Direction)
  /-- A command whose body is cut short. -/
  | truncatedCommand (number : UInt8)
  /-- Commands in the frame header that take more than 15 bytes. -/
  | optionsTooLong
  /-- A payload without a port. -/
  | portMismatch
  /-- Application data among MAC commands, or commands among data. -/
  | mixedPayload
  /-- A data block without bytes. -/
  | emptyData
  /-- No payload to compute a code over. -/
  | missingPayload
  /-- A command in a frame that travels the other way. -/
  | commandDirection (number : UInt8) (direction : Direction)
  /-- A command with a field that its bits cannot hold. -/
  | commandFieldOutOfRange (number : UInt8)
  /-- A frame counter wider than the 16 bits sent. -/
  | counterOverflow (counter : UInt32)
  /-- More than 255 bytes. -/
  | frameTooLong (length : Nat)
  deriving DecidableEq

namespace FrameError

/-- The wording of an error. -/
def message : FrameError → String
  | tooShort expected actual => s!"frame too short: need {expected} bytes, got {actual}"
  | joinAcceptLength length => s!"invalid join-accept length {length}"
  | unsupportedMajor version => s!"unsupported major version {version.toNat}"
  | unsupportedType header => s!"unsupported message type {hexByte header}"
  | unknownCommand number direction =>
    s!"unknown MAC command {hexByte number} (uplink: {direction.isUp})"
  | truncatedCommand number => s!"MAC command {hexByte number} truncated"
  | optionsTooLong => "FOpts exceed 15 bytes"
  | portMismatch => "FPort and FRMPayload mismatch"
  | mixedPayload => "FRMPayload mixes data and MAC commands"
  | emptyData => "FRMPayload data block is empty"
  | missingPayload => "frame carries no MAC payload"
  | commandDirection number direction =>
    s!"MAC command {hexByte number} does not belong in a frame with uplink: {direction.isUp}"
  | commandFieldOutOfRange number => s!"MAC command {hexByte number} has a field out of range"
  | counterOverflow counter => s!"frame counter {counter.toNat} exceeds 16 bits"
  | frameTooLong length => s!"frame of {length} bytes is too long"

end FrameError

end LoraRelay
