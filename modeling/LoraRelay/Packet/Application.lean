import LoraRelay.Packet.Handler

/-!
# Application packets

An application gets its data and an entry of metadata for each gateway that heard
the frame. On the wire there are two fields, the data and a list, which is itself
made of fields, one for each entry.
-/

namespace LoraRelay

/-- Application data and what gateways know about the frame. -/
structure ApplicationPacket where
  /-- The data. -/
  payload : Bytes
  /-- An entry for each gateway, in the order of reception. -/
  metadata : List Metadata
  deriving DecidableEq

namespace ApplicationPacket

/-- The packet with given data, which must not be empty. -/
def make (payload : Bytes) (metadata : List Metadata) : Except PacketError ApplicationPacket :=
  if payload = [] then .error .emptyApplicationPayload else .ok ⟨payload, metadata⟩

/-- The packet with what one handler packet holds. -/
def ofHandler (p : HandlerPacket) : Except PacketError ApplicationPacket :=
  make p.carrier.payload [p.metadata]

/-! ### The list of entries -/

/-- The fields of the entries. -/
def entryPieces : List Metadata → Except PacketError (List Piece)
  | [] => .ok []
  | m :: ms => do
    let bytes ← m.encode
    let rest ← entryPieces ms
    return .field bytes :: rest

/-- The entries as bytes. -/
def encodeEntries (ms : List Metadata) : Except PacketError Bytes := do
  Piece.assemble (← entryPieces ms)

/-- The entries with given bytes, which end where a field ends. -/
def decodeEntries (bytes : Bytes) : Except PacketError (List Metadata) :=
  match _h : Field.read bytes with
  | .error .endOfStream => .ok []
  | .error e => .error (.unreadableEntry e)
  | .ok (content, rest) => do
    let m ← Metadata.decode content
    let ms ← decodeEntries rest
    return m :: ms
termination_by bytes.length
decreasing_by
  have := Field.length_of_read _h
  omega

/-! ### The codec -/

/-- The bytes of a packet. -/
def encode (p : ApplicationPacket) : Except PacketError Bytes := do
  let entries ← encodeEntries p.metadata
  Piece.assemble [.field p.payload, .field entries]

/-- The packet with given bytes. -/
def decode (bytes : Bytes) : Except PacketError ApplicationPacket := do
  let (payload, bytes) ← Field.required "payload" bytes
  let (entries, bytes) ← Field.required "metadata" bytes
  Field.finish .application bytes
  let metadata ← decodeEntries entries
  make payload metadata

/-- The packet as it is shown to people. -/
def text (p : ApplicationPacket) : String :=
  "APacket " ++ Record.braces (Record.join
    ["Payload: " ++ hex p.payload, "Metadata: " ++ Record.list (p.metadata.map Metadata.text)])

end ApplicationPacket

end LoraRelay
