import LoraRelay.Frame.Error
import LoraRelay.Device

/-!
# The join procedure on the air

A device asks to join with its identifiers and a nonce; the network answers with
an address and the parameters of the session. Identifiers and addresses are sent
least significant byte first, all else as it is kept.
-/

namespace LoraRelay

/-! ### Requests -/

/-- A request to join. -/
structure JoinRequest where
  /-- The application. -/
  appEui : Eui
  /-- The device. -/
  devEui : Eui
  /-- A number that the device has not used before. -/
  devNonce : Octets 2
  deriving DecidableEq

namespace JoinRequest

/-- How many bytes a request takes. -/
def length : Nat := 18

/-- The bytes of a request. -/
def encode (r : JoinRequest) : Bytes :=
  r.appEui.toWire.toList ++ r.devEui.toWire.toList ++ r.devNonce.toList

/-- The fields at the front of a string, and the bytes after them. -/
def fields? (bytes : Bytes) : Option (JoinRequest × Bytes) := do
  let (appEui, bytes) ← Octets.split? 8 bytes
  let (devEui, bytes) ← Octets.split? 8 bytes
  let (devNonce, bytes) ← Octets.split? 2 bytes
  return (⟨.ofWire appEui, .ofWire devEui, devNonce⟩, bytes)

/-- The request with given bytes. Any other length than that of a request is given
the same error. -/
def decode (bytes : Bytes) : Except FrameError JoinRequest :=
  match fields? bytes with
  | some (r, []) => .ok r
  | _ => .error (.tooShort length bytes.length)

theorem length_encode (r : JoinRequest) : r.encode.length = length := by
  simp [encode, length]

@[simp] theorem decode_encode (r : JoinRequest) : decode r.encode = .ok r := by
  simp only [decode, fields?, encode, List.append_assoc, Octets.split?_append, Option.bind_eq_bind,
    Option.bind_some]
  rw [← List.append_nil r.devNonce.toList, Octets.split?_append]
  simp

end JoinRequest

/-! ### Answers -/

/-- The answer to a request to join, before it is encrypted. -/
structure JoinAccept where
  /-- A number of the network's. -/
  appNonce : Octets 3
  /-- The network. -/
  netId : Octets 3
  /-- The address that the device gets. -/
  address : DevAddr
  /-- The data rates of the receive windows. -/
  dlSettings : UInt8
  /-- The delay before the first receive window in seconds. -/
  rxDelay : UInt8
  /-- The frequencies of further channels. -/
  cfList : Option (Octets 16)
  deriving DecidableEq

namespace JoinAccept

/-- The bytes of an answer. -/
def encode (a : JoinAccept) : Bytes :=
  a.appNonce.toList ++ a.netId.toList ++ a.address.toWire.toList ++ a.dlSettings :: a.rxDelay ::
    (a.cfList.map Octets.toList).getD []

/-- The answer with given bytes, if there are 12 of them or 28. -/
def fields? (bytes : Bytes) : Option JoinAccept := do
  let (appNonce, bytes) ← Octets.split? 3 bytes
  let (netId, bytes) ← Octets.split? 3 bytes
  let (address, bytes) ← Octets.split? 4 bytes
  match bytes with
  | [dlSettings, rxDelay] => return ⟨appNonce, netId, .ofWire address, dlSettings, rxDelay, none⟩
  | dlSettings :: rxDelay :: rest =>
    let cfList ← Octets.ofList? 16 rest
    return ⟨appNonce, netId, .ofWire address, dlSettings, rxDelay, some cfList⟩
  | _ => none

/-- The answer with given bytes. -/
def decode (bytes : Bytes) : Except FrameError JoinAccept :=
  match fields? bytes with
  | some a => .ok a
  | none => .error (.joinAcceptLength bytes.length)

theorem length_encode (a : JoinAccept) :
    a.encode.length = 12 ∨ a.encode.length = 28 := by
  obtain ⟨appNonce, netId, address, dlSettings, rxDelay, _ | cfList⟩ := a
  · left
    simp [encode]
  · right
    simp [encode]

@[simp] theorem decode_encode (a : JoinAccept) : decode a.encode = .ok a := by
  have h : ∀ v : Octets 16, ∃ b bs, v.toList = b :: bs := by
    intro v
    cases hv : v.toList with
    | nil => simpa [hv] using v.length_toList
    | cons b bs => exact ⟨b, bs, rfl⟩
  obtain ⟨appNonce, netId, address, dlSettings, rxDelay, cfList⟩ := a
  cases cfList with
  | none => simp [decode, fields?, encode]
  | some v =>
    obtain ⟨b, bs, hv⟩ := h v
    have hv' : Octets.ofList? 16 (b :: bs) = some v := Octets.ofList?_eq_some_iff.2 hv.symm
    simp [decode, fields?, encode, hv, hv']

end JoinAccept

end LoraRelay
