import LoraRelay.Frame.Basic
import LoraRelay.Position.Basic

/-!
# Reading frames by position

Each part of a frame is read once more, now by looking bytes up at fixed positions: the
body of a command, whose length a table gives, the header of a data frame, the payloads of
the join procedure, and the frame, which is cut before its integrity code. Lengths are
asked for first, sometimes several readers earlier.
-/

namespace LoraRelay

open Positional

/-! ### Commands -/

namespace Command

/-- The frequency in the three bytes of a body from position 1. -/
def freqAt (body : Bytes) : Positional FrameError UInt32 := do
  let bytes ← slice body 1 4
  return freqOfWire (← look bytes 0) (← look bytes 1) (← look bytes 2)

/-- The command with a given identifier and body, in a frame of a given direction. -/
def ofBodyAt (id : CommandId) (d : Direction) (body : Bytes) : Positional FrameError Command :=
  match id, d with
  | .linkCheck, .up => return linkCheckReq
  | .linkCheck, .down => return linkCheckAns (← look body 0) (← look body 1)
  | .linkAdr, .up =>
    return linkAdrAns (flag 4 (← look body 0)) (flag 2 (← look body 0)) (flag 1 (← look body 0))
  | .linkAdr, .down =>
    return linkAdrReq ((← look body 0) / 16) ((← look body 0) % 16)
      (ofLe16 (← look body 1) (← look body 2)) ((← look body 3) / 16 % 8) ((← look body 3) % 16)
  | .dutyCycle, .up => return dutyCycleAns
  | .dutyCycle, .down => return dutyCycleReq ((← look body 0) % 16)
  | .rxParamSetup, .up =>
    return rxParamSetupAns (flag 4 (← look body 0)) (flag 2 (← look body 0))
      (flag 1 (← look body 0))
  | .rxParamSetup, .down =>
    return rxParamSetupReq ((← look body 0) / 16 % 8) ((← look body 0) % 16) (← freqAt body)
  | .devStatus, .up => return devStatusAns (← look body 0) (marginOfWire (← look body 1))
  | .devStatus, .down => return devStatusReq
  | .newChannel, .up => return newChannelAns (flag 1 (← look body 0)) (flag 2 (← look body 0))
  | .newChannel, .down =>
    return newChannelReq (← look body 0) (← freqAt body) ((← look body 4) / 16)
      ((← look body 4) % 16)
  | .rxTimingSetup, .up => return rxTimingSetupAns
  | .rxTimingSetup, .down => return rxTimingSetupReq ((← look body 0) % 16)
  | .txParamSetup, .up => return txParamSetupAns
  | .txParamSetup, .down =>
    return txParamSetupReq (flag 32 (← look body 0)) (flag 16 (← look body 0))
      ((← look body 0) % 16)
  | .dlChannel, .up => return dlChannelAns (flag 1 (← look body 0)) (flag 2 (← look body 0))
  | .dlChannel, .down => return dlChannelReq (← look body 0) (← freqAt body)

/-- The command at the front, its identifier `number` being taken off already, and the
bytes after it. -/
def decodeOneAt (d : Direction) (number : UInt8) (bytes : Bytes) :
    Positional FrameError (Command × Bytes) :=
  match CommandId.ofNumber? number with
  | none => throw (.unknownCommand number d)
  | some id =>
    if bytes.length < id.bodyLength d then throw (.truncatedCommand number)
    else do
      let (body, rest) ← cut bytes (id.bodyLength d)
      return (← ofBodyAt id d body, rest)

theorem length_of_decodeOneAt {d : Direction} {number : UInt8} {bytes rest : Bytes} {c : Command}
    (h : decodeOneAt d number bytes = inside (.ok (c, rest))) : rest.length ≤ bytes.length := by
  unfold decodeOneAt at h
  split at h
  · cases h
  · split at h
    · cases h
    · obtain ⟨⟨body, rest'⟩, hcut, h⟩ := bind_eq_inside_ok_iff.1 h
      obtain ⟨_, -, h⟩ := bind_eq_inside_ok_iff.1 h
      cases h
      rw [← append_of_cut hcut, List.length_append]
      omega

/-- The commands that follow each other in a string. -/
def decodeAllAt (d : Direction) : Bytes → Positional FrameError (List Command)
  | [] => return []
  | number :: bytes =>
    match _h : decodeOneAt d number bytes with
    | none => outside
    | some (.error e) => throw e
    | some (.ok (c, rest)) => do
      let cs ← decodeAllAt d rest
      return c :: cs
termination_by bytes => bytes.length
decreasing_by
  have := length_of_decodeOneAt _h
  simp
  omega

end Command

/-! ### The frame header and what is sent to a port -/

namespace FrameHeader

/-- The header at the front of a frame that travels in direction `d`, and the bytes
after it. -/
def decodeAt (d : Direction) (bytes : Bytes) : Positional FrameError (FrameHeader × Bytes) :=
  if bytes.length < minLength then throw (.tooShort minLength bytes.length)
  else do
    let length := FrameControl.optionsLength (← look bytes 4)
    let stop := minLength + length
    if bytes.length < stop then throw (.tooShort stop bytes.length)
    else do
      let address ← looks bytes 0 4
      let control := .ofByte (← look bytes 4)
      let counter := ofLe16 (← look bytes 5) (← look bytes 6)
      let options ← Command.decodeAllAt d (← slice bytes minLength stop)
      return (⟨.ofWire address, control, counter.toUInt32, options⟩,
        ← slice bytes stop bytes.length)

end FrameHeader

namespace PortItem

/-- What a port has been sent. -/
def decodeForAt (d : Direction) (port : UInt8) (bytes : Bytes) :
    Positional FrameError (List PortItem) :=
  if port = 0 then do
    let cs ← Command.decodeAllAt d bytes
    return cs.map command
  else if bytes = [] then return []
  else return [data bytes]

end PortItem

namespace DataPayload

/-- The payload in a frame that travels in direction `d`. -/
def decodeAt (d : Direction) (bytes : Bytes) : Positional FrameError DataPayload := do
  match ← FrameHeader.decodeAt d bytes with
  | (header, []) => return ⟨header, none, []⟩
  | (header, port :: rest) => return ⟨header, some port, ← PortItem.decodeForAt d port rest⟩

end DataPayload

/-! ### Join payloads -/

namespace JoinRequest

/-- The request with given bytes. -/
def decodeAt (bytes : Bytes) : Positional FrameError JoinRequest :=
  if bytes.length ≠ length then throw (.tooShort length bytes.length)
  else do
    let appEui ← copy 8 (← slice bytes 0 8)
    let devEui ← copy 8 (← slice bytes 8 16)
    return ⟨.ofWire appEui, .ofWire devEui, ← looks bytes 16 2⟩

end JoinRequest

namespace JoinAccept

/-- The frequencies in an answer with given bytes, if there are so many of them that it has
any. -/
def frequenciesAt (bytes : Bytes) : Positional FrameError (Option (Octets 16)) :=
  if bytes.length = 12 then return none
  else if bytes.length = 28 then do
    return some (← copy 16 (← slice bytes 12 bytes.length))
  else throw (.joinAcceptLength bytes.length)

/-- The answer with given bytes. -/
def decodeAt (bytes : Bytes) : Positional FrameError JoinAccept := do
  let frequencies ← frequenciesAt bytes
  let appNonce ← looks bytes 0 3
  let netId ← looks bytes 3 3
  let address ← looks bytes 6 4
  return ⟨appNonce, netId, .ofWire address, ← look bytes 10, ← look bytes 11, frequencies⟩

end JoinAccept

/-! ### Payloads and frames -/

namespace Payload

/-- The payload in a message, its commands being read in direction `d`. -/
def decodeAt (m : MessageType) (d : Direction) (bytes : Bytes) : Positional FrameError Payload :=
  match m with
  | .joinRequest => joinRequest <$> JoinRequest.decodeAt bytes
  | .joinAccept => joinAccept <$> JoinAccept.decodeAt bytes
  | .unconfirmedDataUp | .unconfirmedDataDown | .confirmedDataUp | .confirmedDataDown =>
    data <$> DataPayload.decodeAt d bytes
  | .proprietary => return proprietary bytes
  | .rejoinRequest => throw (.unsupportedType m.header)

end Payload

namespace Frame

/-- The frame sent over the air as these bytes, its commands being read in direction
`d`. -/
def decodeAt (d : Direction) (bytes : Bytes) : Positional FrameError Frame :=
  if bytes.length < 5 then throw (.tooShort 5 bytes.length)
  else if maxLength < bytes.length then throw (.frameTooLong bytes.length)
  else do
    let messageType ← inside (MessageType.ofHeader (← look bytes 0))
    let (body, mic) ← cutBack (← slice bytes 1 bytes.length) 4
    let payload ← Payload.decodeAt messageType d body
    return ⟨messageType, some payload, ← looks mic 0 4⟩

end Frame

end LoraRelay
