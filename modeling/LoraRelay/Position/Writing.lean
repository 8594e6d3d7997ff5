import LoraRelay.Frame.Basic
import LoraRelay.Position.Basic

/-!
# Writing frames by position

A command is written into a buffer of fixed size, field by field, and what its length
covers is taken out. The other parts of a frame are put one after the other.
-/

namespace LoraRelay

open Positional

/-! ### Commands -/

namespace Command

/-- How many bytes a command takes at most. -/
def maxLength : Nat := 6

/-- The room for a body, with the fields of a command written into it. -/
def fillBody (body : Bytes) : Command → Positional FrameError Bytes
  | linkCheckReq | dutyCycleAns | devStatusReq | rxTimingSetupAns | txParamSetupAns => return body
  | linkCheckAns margin gatewayCount => do poke (← poke body 0 margin) 1 gatewayCount
  | linkAdrReq dataRate txPower chMask chMaskCntl nbTrans => do
    let body ← poke body 0 (nibbles dataRate txPower)
    let body ← put body 1 3 (le16 chMask).toList
    poke body 3 (nibbles chMaskCntl nbTrans)
  | linkAdrAns powerAck dataRateAck channelMaskAck =>
    poke body 0 (weigh 4 powerAck + weigh 2 dataRateAck + weigh 1 channelMaskAck)
  | dutyCycleReq maxDutyCycle => poke body 0 maxDutyCycle
  | rxParamSetupReq rx1DrOffset rx2DataRate freq => do
    let body ← poke body 0 (nibbles rx1DrOffset rx2DataRate)
    put body 1 4 (freqToWire freq)
  | rxParamSetupAns rx1DrOffsetAck rx2DataRateAck channelAck =>
    poke body 0 (weigh 4 rx1DrOffsetAck + weigh 2 rx2DataRateAck + weigh 1 channelAck)
  | devStatusAns battery margin => do poke (← poke body 0 battery) 1 (marginToWire margin)
  | newChannelReq chIndex freq maxDr minDr => do
    let body ← poke body 0 chIndex
    let body ← put body 1 4 (freqToWire freq)
    poke body 4 (nibbles maxDr minDr)
  | newChannelAns channelFreqOk dataRateOk =>
    poke body 0 (weigh 2 dataRateOk + weigh 1 channelFreqOk)
  | rxTimingSetupReq delay => poke body 0 delay
  | txParamSetupReq downlinkDwellTime uplinkDwellTime maxEirp =>
    poke body 0 (weigh 32 downlinkDwellTime + weigh 16 uplinkDwellTime + maxEirp)
  | dlChannelReq chIndex freq => do
    let body ← poke body 0 chIndex
    put body 1 4 (freqToWire freq)
  | dlChannelAns channelFreqOk uplinkFreqExists =>
    poke body 0 (weigh 2 uplinkFreqExists + weigh 1 channelFreqOk)

/-- A command with its identifier in front, if its fields are in range. -/
def encodeAt (c : Command) : Positional FrameError Bytes :=
  if c.InRange then do
    let buffer ← poke (List.replicate maxLength 0) 0 c.id.number
    let (front, body) ← cut buffer 1
    let body ← c.fillBody body
    collect maxLength (← slice (front ++ body) 0 (1 + c.bodyLength))
  else throw (.commandFieldOutOfRange c.id.number)

/-- A command of a frame that travels in direction `d`. -/
def encodeForAt (d : Direction) (c : Command) : Positional FrameError Bytes :=
  if c.direction = d then c.encodeAt else throw (.commandDirection c.id.number d)

/-- Commands one after the other, for which there are `room` bytes. -/
def encodeWithinAt (d : Direction) (room : Nat) : List Command → Positional FrameError Bytes
  | [] => return []
  | c :: cs => do
    let bytes ← c.encodeForAt d
    if room < bytes.length then throw .optionsTooLong
    else do
      let rest ← encodeWithinAt d (room - bytes.length) cs
      return bytes ++ rest

end Command

/-! ### Data payloads -/

/-- The header of a frame that travels in direction `d`. -/
def FrameHeader.encodeAt (h : FrameHeader) (d : Direction) : Positional FrameError Bytes := do
  let options ← Command.encodeWithinAt d maxOptions h.options
  return h.address.toWire.toList ++ h.control.toByte options.length ::
    (le16 h.counter.toUInt16).toList ++ options

namespace PortItem

/-- What is sent to port zero: commands that travel in direction `d`. -/
def encodeCommandsAt (d : Direction) : List PortItem → Positional FrameError Bytes
  | [] => return []
  | data _ :: _ => throw .mixedPayload
  | command c :: items => do
    let bytes ← c.encodeForAt d
    let rest ← encodeCommandsAt d items
    return bytes ++ rest

/-- What is sent to a port. -/
def encodeForAt (d : Direction) (port : UInt8) (items : List PortItem) :
    Positional FrameError Bytes :=
  if port = 0 then encodeCommandsAt d items else inside (encodeData items)

end PortItem

namespace DataPayload

/-- The payload of a frame that travels in direction `d`. -/
def encodeAt (p : DataPayload) (d : Direction) : Positional FrameError Bytes := do
  let header ← p.header.encodeAt d
  match p.port with
  | none => if p.items = [] then return header else throw .portMismatch
  | some port =>
    let bytes ← PortItem.encodeForAt d port p.items
    return header ++ port :: bytes

end DataPayload

/-! ### Payloads and frames -/

/-- The bytes of a request. -/
def JoinRequest.encodeAt (r : JoinRequest) : Positional FrameError Bytes := do
  let appEui ← copy 8 r.appEui.bytes.toList
  let devEui ← copy 8 r.devEui.bytes.toList
  return appEui.reverse.toList ++ devEui.reverse.toList ++ r.devNonce.toList

namespace Payload

/-- The payload of a message. -/
def encodeAt (m : MessageType) : Payload → Positional FrameError Bytes
  | data p =>
    match m.direction? with
    | some d => p.encodeAt d
    | none => throw (.unsupportedType m.header)
  | joinRequest r => r.encodeAt
  | joinAccept a => return a.encode
  | proprietary bytes => return bytes

end Payload

namespace Frame

/-- The payload as bytes, of which there are none without a payload. -/
def encodePayloadAt (f : Frame) : Positional FrameError Bytes :=
  match f.payload with
  | none => return []
  | some p => p.encodeAt f.messageType

/-- The frame as sent over the air. -/
def encodeAt (f : Frame) : Positional FrameError Bytes := do
  let body ← f.encodePayloadAt
  let bytes := f.messageType.header :: body
  if maxLength < bytes.length + 4 then throw (.frameTooLong (bytes.length + 4))
  else return bytes ++ f.mic.toList

end Frame

end LoraRelay
