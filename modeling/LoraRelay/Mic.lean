import LoraRelay.Cmac
import LoraRelay.Direction

/-!
# Message integrity codes

The last four bytes of a frame are the first four of an AES-CMAC under a key of
the session. For a join frame it is taken over the frame as it stands; for a data
frame a block `B0` with the direction, the address, the whole frame counter and
the length goes in front, since only half of the counter is sent.
-/

namespace LoraRelay

/-- A message integrity code. -/
abbrev Mic := Octets 4

namespace Mic

/-- The integrity code of a string: the first four bytes of its CMAC. -/
def ofMessage (key : Key) (message : Bytes) : Mic :=
  ⟨(Cmac.code key message).v.toList, rfl⟩

/-- The second example of RFC 4493, a message of one full block. -/
example :
    (ofMessage
      ⟨⟨[0x2B, 0x7E, 0x15, 0x16, 0x28, 0xAE, 0xD2, 0xA6, 0xAB, 0xF7, 0x15, 0x88, 0x09, 0xCF,
        0x4F, 0x3C], rfl⟩⟩
      [0x6B, 0xC1, 0xBE, 0xE2, 0x2E, 0x40, 0x9F, 0x96, 0xE9, 0x3D, 0x7E, 0x11, 0x73, 0x93,
        0x17, 0x2A]).toList = [0x07, 0x0A, 0x16, 0xB4] := by
  decide +kernel

/-- The block in front of a data message of `length` bytes. -/
def dataBlock (direction : Direction) (address : DevAddr) (counter : UInt32) (length : Nat) :
    Bytes :=
  [0x49, 0, 0, 0, 0, direction.bit] ++ address.toWire.toList ++ (le32 counter).toList ++
    [0, UInt8.ofNat length]

/-- What is put under the CMAC for a data message. -/
def dataInput (direction : Direction) (address : DevAddr) (counter : UInt32) (message : Bytes) :
    Bytes :=
  dataBlock direction address counter message.length ++ message

/-- The integrity code of a data message. -/
def ofData (key : Key) (direction : Direction) (address : DevAddr) (counter : UInt32)
    (message : Bytes) : Mic :=
  ofMessage key (dataInput direction address counter message)

theorem length_dataBlock (direction : Direction) (address : DevAddr) (counter : UInt32)
    (length : Nat) : (dataBlock direction address counter length).length = 16 := by
  simp [dataBlock]

end Mic

end LoraRelay
