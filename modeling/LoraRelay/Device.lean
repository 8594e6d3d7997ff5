import LoraRelay.Bytes

/-!
# Identifiers and keys

A device and its application have an 8-byte identifier (`Eui`), a device has a
4-byte address on the network (`DevAddr`), and sessions have 16-byte keys. They
are kept most significant byte first; on the air the order is the opposite.
-/

namespace LoraRelay

/-- An 8-byte identifier of a device or of an application. -/
@[ext] structure Eui where
  /-- The bytes, most significant first. -/
  bytes : Octets 8
  deriving DecidableEq

/-- The address of a device on its network. -/
@[ext] structure DevAddr where
  /-- The bytes, most significant first. -/
  bytes : Octets 4
  deriving DecidableEq

/-- A 128-bit key. -/
@[ext] structure Key where
  /-- The bytes. -/
  bytes : Octets 16
  deriving DecidableEq

namespace DevAddr

/-- The address as sent over the air, least significant byte first. -/
def toWire (a : DevAddr) : Octets 4 := a.bytes.reverse

/-- The address sent over the air as these bytes. -/
def ofWire (bytes : Octets 4) : DevAddr := ⟨bytes.reverse⟩

@[simp] theorem ofWire_toWire (a : DevAddr) : ofWire a.toWire = a := by
  simp [ofWire, toWire]

@[simp] theorem toWire_ofWire (bytes : Octets 4) : (ofWire bytes).toWire = bytes := by
  simp [ofWire, toWire]

/-- The address in upper-case hexadecimal. -/
def text (a : DevAddr) : String := hex a.bytes.toList

end DevAddr

namespace Eui

/-- The identifier as sent over the air, least significant byte first. -/
def toWire (e : Eui) : Octets 8 := e.bytes.reverse

/-- The identifier sent over the air as these bytes. -/
def ofWire (bytes : Octets 8) : Eui := ⟨bytes.reverse⟩

@[simp] theorem ofWire_toWire (e : Eui) : ofWire e.toWire = e := by
  simp [ofWire, toWire]

@[simp] theorem toWire_ofWire (bytes : Octets 8) : (ofWire bytes).toWire = bytes := by
  simp [ofWire, toWire]

/-- The identifier that stands for a device known by its address only: four zero
bytes and the address. -/
def ofDevAddr (a : DevAddr) : Eui := ⟨(Octets.zero 4).append a.bytes⟩

/-- The identifier in upper-case hexadecimal. -/
def text (e : Eui) : String := hex e.bytes.toList

end Eui

/-- The key in upper-case hexadecimal. -/
def Key.text (k : Key) : String := hex k.bytes.toList

end LoraRelay
