import LoraRelay.Frame.Command.Codec
import LoraRelay.Device

/-!
# The frame header

A data frame starts with the address of the device, a control byte, the low half
of the frame counter and up to 15 bytes of MAC commands, whose number of bytes is
the low nibble of the control byte.
-/

namespace LoraRelay

/-! ### The control byte -/

/-- The flags of a frame header. -/
structure FrameControl where
  /-- The data rate is adapted. -/
  adr : Bool
  /-- A device wants to hear whether it is still heard. -/
  adrAckReq : Bool
  /-- The last confirmed frame is acknowledged. -/
  ack : Bool
  /-- More is waiting, or going up, the device listens in class B. -/
  fPending : Bool
  deriving DecidableEq

namespace FrameControl

/-- The control byte in front of `length` bytes of commands, a number for which it has four
bits. -/
def toByte (f : FrameControl) (length : Nat) : UInt8 :=
  weigh 128 f.adr + weigh 64 f.adrAckReq + weigh 32 f.ack + weigh 16 f.fPending +
    UInt8.ofNat length % 16

/-- The flags in a control byte. -/
def ofByte (byte : UInt8) : FrameControl :=
  ⟨flag 128 byte, flag 64 byte, flag 32 byte, flag 16 byte⟩

/-- How many bytes of commands a control byte announces. -/
def optionsLength (byte : UInt8) : Nat := (byte % 16).toNat

end FrameControl

/-! ### The header -/

/-- The header of a data frame. -/
structure FrameHeader where
  /-- The device. -/
  address : DevAddr
  /-- The flags. -/
  control : FrameControl
  /-- The whole frame counter, of which the low 16 bits are sent. -/
  counter : UInt32
  /-- The commands in the header. -/
  options : List Command
  deriving DecidableEq

namespace FrameHeader

/-- How many bytes of commands a header holds. -/
def maxOptions : Nat := 15

/-- How many bytes a header without commands takes. -/
def minLength : Nat := 7

/-- The header of a frame that travels in direction `d`. -/
def encode (h : FrameHeader) (d : Direction) : Except FrameError Bytes := do
  let options ← Command.encodeWithin d maxOptions h.options
  return h.address.toWire.toList ++ h.control.toByte options.length ::
    (le16 h.counter.toUInt16).toList ++ options

/-- The header at the front of a frame that travels in direction `d`, and the bytes
after it. -/
def decode (d : Direction) (bytes : Bytes) : Except FrameError (FrameHeader × Bytes) :=
  match Octets.split? 4 bytes with
  | some (address, control :: lo :: hi :: rest) =>
    let length := FrameControl.optionsLength control
    if rest.length < length then .error (.tooShort (minLength + length) bytes.length)
    else do
      let options ← Command.decodeAll d (rest.take length)
      return ({ address := .ofWire address, control := .ofByte control,
                counter := (ofLe16 lo hi).toUInt32, options }, rest.drop length)
  | _ => .error (.tooShort minLength bytes.length)

end FrameHeader

end LoraRelay
