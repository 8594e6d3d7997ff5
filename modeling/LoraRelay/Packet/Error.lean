import LoraRelay.Field
import LoraRelay.Frame.MessageType
import LoraRelay.Metadata.Basic

/-!
# What is wrong with a packet

The causes for which a packet is refused when it is made, encoded or decoded. A
cause is structural if the packet is malformed, so that a caller may drop it and
carry on, and otherwise one that the protocol does not cover.
-/

namespace LoraRelay

/-- What a packet is for. -/
inductive PacketKind where
  /-- From a gateway to the router: a data frame. -/
  | router
  /-- At the broker: a data frame with one block of application data. -/
  | broker
  /-- From the broker to a handler: the data without the frame. -/
  | handler
  /-- To an application. -/
  | application
  /-- A request to join. -/
  | join
  /-- The answer to it. -/
  | accept
  deriving DecidableEq

/-- The name of a kind of packet. -/
def PacketKind.name : PacketKind → String
  | router => "router"
  | broker => "broker"
  | handler => "handler"
  | application => "application"
  | join => "join"
  | accept => "accept"

/-- Whether a caller may drop a packet and carry on. -/
inductive ErrorKind where
  /-- The packet is malformed. -/
  | structural
  /-- The protocol does not cover the packet. -/
  | implementation
  deriving DecidableEq

/-- The name of a kind of error. -/
def ErrorKind.name : ErrorKind → String
  | structural => "structural"
  | implementation => "implementation"

/-- The error underneath a packet error. -/
inductive Cause where
  /-- A frame is wrong. -/
  | frame (e : FrameError)
  /-- A field is wrong. -/
  | field (e : FieldError)
  /-- A text is not the JSON of metadata. -/
  | json
  deriving DecidableEq

/-- Why a packet is refused. -/
inductive PacketError where
  /-- A number in the metadata is not finite. -/
  | notFinite (key : Metadata.Key)
  /-- The metadata cannot be read. -/
  | unreadableMetadata
  /-- A field cannot be written. -/
  | unwritableField (e : FieldError)
  /-- A field cannot be read. -/
  | unreadableField (name : String) (e : FieldError)
  /-- A field has the wrong length. -/
  | fieldLength (name : String) (expected actual : Nat)
  /-- An entry in a list of metadata cannot be read. -/
  | unreadableEntry (e : FieldError)
  /-- Bytes follow a packet. -/
  | trailingBytes (kind : PacketKind)
  /-- No direction has this tag. -/
  | invalidTag (tag : UInt8)
  /-- Messages of this type have no direction. -/
  | noDirection (m : MessageType)
  /-- A data frame cannot be sent. -/
  | unsendableFrame (e : FrameError)
  /-- A frame has no payload. -/
  | missingPayload
  /-- The payload of a frame is not data. -/
  | notData
  /-- Data stands under the type of a join message. -/
  | dataUnderJoin (m : MessageType)
  /-- The counter of a frame is wider than what is sent. -/
  | counterOverflow (counter : UInt32)
  /-- The frame of a packet cannot be encoded. -/
  | unwritableFrame (e : FrameError)
  /-- The frame of a packet cannot be decoded. -/
  | unreadableFrame (e : FrameError)
  /-- A port has not been sent exactly one element. -/
  | notOneItem
  /-- What a port has been sent is a command. -/
  | notDataItem
  /-- What a port has been sent is empty. -/
  | emptyDataItem
  /-- Data was sent to no port or to port zero. -/
  | noApplicationPort
  /-- No integrity code can be computed. -/
  | noMic (e : FrameError)
  /-- A packet for an application has no payload. -/
  | emptyApplicationPayload
  /-- A frame is not a request to join. -/
  | notJoinRequest
  /-- A device nonce is not two bytes. -/
  | nonceLength (actual : Nat)
  /-- An accept packet has no payload. -/
  | emptyAcceptPayload
  /-- A frame is not a join accept. -/
  | notJoinAccept
  /-- A join accept cannot be encoded. -/
  | unwritableJoinAccept (e : FrameError)
  /-- A session key is not 16 bytes. -/
  | keyLength (actual : Nat)
  /-- A cause from outside. -/
  | other (kind : ErrorKind) (message : String)
  deriving DecidableEq

namespace PacketError

/-- Whether a cause is structural. All are but one, and those from outside as they
say. -/
def kind : PacketError → ErrorKind
  | noDirection _ => .implementation
  | other kind _ => kind
  | _ => .structural

/-- The wording of a cause. -/
def reason : PacketError → String
  | notFinite key => s!"metadata {key.name} is not finite"
  | unreadableMetadata => "cannot decode metadata"
  | unwritableField _ => "field framing failed"
  | unreadableField name _ => s!"cannot read {name}"
  | fieldLength name expected actual => s!"{name} must be {expected} bytes, got {actual}"
  | unreadableEntry _ => "cannot read metadata entry"
  | trailingBytes kind => s!"unexpected bytes after {kind.name} packet"
  | invalidTag tag => s!"invalid direction tag {tag.toNat}"
  | noDirection m => s!"unsupported mtype: {m.name}"
  | unsendableFrame _ => "frame cannot be encoded"
  | missingPayload => "MAC payload should not be empty"
  | notData => "packet does not carry a data MAC payload"
  | dataUnderJoin m => s!"data MAC payload under {m.name} header"
  | counterOverflow _ => "frame counter does not fit the frame"
  | unwritableFrame _ => "cannot encode frame"
  | unreadableFrame _ => "cannot decode frame"
  | notOneItem => "invalid frame payload, expected exactly 1"
  | notDataItem => "invalid frame payload, expected only data"
  | emptyDataItem => "invalid frame payload, data is empty"
  | noApplicationPort => "data payload needs an application port"
  | noMic _ => "cannot compute MIC"
  | emptyApplicationPayload => "application packet must hold a payload"
  | notJoinRequest => "frame is not a join request"
  | nonceLength actual => s!"device nonce must be 2 bytes, got {actual}"
  | emptyAcceptPayload => "payload cannot be empty"
  | notJoinAccept => "frame is not a join accept"
  | unwritableJoinAccept _ => "cannot encode join accept"
  | keyLength actual => s!"network session key must be 16 bytes, got {actual}"
  | other _ message => message

/-- The wording of an error: its kind and its cause. -/
def message (e : PacketError) : String := s!"{e.kind.name} error: {e.reason}"

/-- The error underneath, if there is one. -/
def cause : PacketError → Option Cause
  | unreadableMetadata => some .json
  | unwritableField e | unreadableField _ e | unreadableEntry e => some (.field e)
  | counterOverflow counter => some (.frame (.counterOverflow counter))
  | unsendableFrame e | unwritableFrame e | unreadableFrame e | noMic e | unwritableJoinAccept e =>
    some (.frame e)
  | _ => none

end PacketError

end LoraRelay
