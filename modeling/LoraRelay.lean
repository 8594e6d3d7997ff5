import LoraRelay.Packet.Basic
import LoraRelay.Packet.Framing
import LoraRelay.Position.Basic
import LoraRelay.Position.Reading
import LoraRelay.Position.Writing
import LoraRelay.Position.Packet
import LoraRelay.Position.Join
import LoraRelay.Proofs.Command.Sequence
import LoraRelay.Proofs.Mask
import LoraRelay.Proofs.Command.Reserved
import LoraRelay.Proofs.Frame.Layout
import LoraRelay.Proofs.Frame.RoundTrip
import LoraRelay.Proofs.Frame.Reserved
import LoraRelay.Proofs.Frame.Integrity
import LoraRelay.Proofs.Field
import LoraRelay.Proofs.Frame.Kind
import LoraRelay.Proofs.Frame.Misread
import LoraRelay.Proofs.Router.Grammar
import LoraRelay.Proofs.Binary64.Rounding
import LoraRelay.Proofs.Digits
import LoraRelay.Proofs.Binary64.Shortest
import LoraRelay.Proofs.Json.Number
import LoraRelay.Proofs.Json.Token
import LoraRelay.Proofs.Metadata.RoundTrip
import LoraRelay.Proofs.Router.Travel
import LoraRelay.Proofs.Metadata.Finite
import LoraRelay.Proofs.Packet.Carrier
import LoraRelay.Proofs.Packet.Application
import LoraRelay.Proofs.Packet.Hops
import LoraRelay.Proofs.Position.Basic
import LoraRelay.Proofs.Position.Reading
import LoraRelay.Proofs.Packet.Failure
import LoraRelay.Proofs.Position.Writing
import LoraRelay.Proofs.Position.Packet
import LoraRelay.Proofs.Command.Domain
import LoraRelay.Proofs.Frame.Domain
import LoraRelay.Proofs.Packet.Broker
import LoraRelay.Proofs.Packet.Prefix
import LoraRelay.Proofs.Packet.Tiers
import LoraRelay.Proofs.Position.Join
import LoraRelay.Proofs.Packet.Obtainable
import LoraRelay.Proofs.Command.Range
import LoraRelay.Proofs.Command.Records
import LoraRelay.Proofs.Frame.Grammar
import LoraRelay.Proofs.Frame.Signing
import LoraRelay.Proofs.Metadata.Canonical
import LoraRelay.Proofs.Frame.Fields
import LoraRelay.Proofs.Packet.Narrowing
import LoraRelay.Proofs.Packet.View
import LoraRelay.Proofs.Frame.Options
import LoraRelay.Proofs.Packet.Joining
import LoraRelay.Proofs.Field.Reader
import LoraRelay.Proofs.Field.Writer
import LoraRelay.Proofs.Frame.Shortage
