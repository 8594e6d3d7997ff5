import LoraRelay.Frame.Header

/-!
# The payload of a data frame

After the header there may be a port and what is sent to it. Port zero takes MAC
commands, every other port one block of application data, which is encrypted and
not looked at.

## The model

A payload lists its elements, so that more can be written down than sent. The
encoder refuses what would be read back differently: elements without a port, an
empty block of data, and elements that do not belong on the port.
-/

namespace LoraRelay

/-- An element sent to a port. -/
inductive PortItem where
  /-- A block of application data. -/
  | data (bytes : Bytes)
  /-- A MAC command. -/
  | command (c : Command)
  deriving DecidableEq

/-- The payload of a data frame. -/
structure DataPayload where
  /-- The frame header. -/
  header : FrameHeader
  /-- The port, if something is sent to one. -/
  port : Option UInt8
  /-- What is sent to the port. -/
  items : List PortItem
  deriving DecidableEq

namespace PortItem

/-- What is sent to port zero: commands that travel in direction `d`. -/
def encodeCommands (d : Direction) : List PortItem → Except FrameError Bytes
  | [] => .ok []
  | data _ :: _ => .error .mixedPayload
  | command c :: items => do
    let bytes ← c.encodeFor d
    let rest ← encodeCommands d items
    return bytes ++ rest

/-- What is sent to a port other than zero: at most one block of data, not empty. -/
def encodeData : List PortItem → Except FrameError Bytes
  | [] => .ok []
  | [data []] => .error .emptyData
  | [data bytes] => .ok bytes
  | _ => .error .mixedPayload

/-- What is sent to a port. -/
def encodeFor (d : Direction) (port : UInt8) (items : List PortItem) : Except FrameError Bytes :=
  if port = 0 then encodeCommands d items else encodeData items

/-- What a port has been sent. -/
def decodeFor (d : Direction) (port : UInt8) (bytes : Bytes) : Except FrameError (List PortItem) :=
  if port = 0 then (Command.decodeAll d bytes).map (·.map command)
  else .ok (if bytes = [] then [] else [data bytes])

end PortItem

namespace DataPayload

/-- A block of data for an application port. -/
def ofData (header : FrameHeader) (port : UInt8) (bytes : Bytes) : DataPayload :=
  ⟨header, some port, [.data bytes]⟩

/-- The payload of a frame that travels in direction `d`. -/
def encode (p : DataPayload) (d : Direction) : Except FrameError Bytes := do
  let header ← p.header.encode d
  match p.port with
  | none => if p.items = [] then return header else throw .portMismatch
  | some port =>
    let bytes ← PortItem.encodeFor d port p.items
    return header ++ port :: bytes

/-- The payload in a frame that travels in direction `d`. -/
def decode (d : Direction) (bytes : Bytes) : Except FrameError DataPayload := do
  match ← FrameHeader.decode d bytes with
  | (header, []) => return ⟨header, none, []⟩
  | (header, port :: rest) => return ⟨header, some port, ← PortItem.decodeFor d port rest⟩

end DataPayload

end LoraRelay
