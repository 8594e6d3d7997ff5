import LoraRelay.Frame.Error

/-!
# Message types

The first byte of a frame: the message type in the top three bits, three reserved
bits, and the major version of the protocol, of which only R1 (zero) is known. The
message type fixes the direction of a frame, but for two types that have none.
-/

namespace LoraRelay

/-- What kind of message a frame is. -/
inductive MessageType where
  /-- A device asks to join. -/
  | joinRequest
  /-- The network lets a device join. -/
  | joinAccept
  /-- Data from a device that asks for no acknowledgement. -/
  | unconfirmedDataUp
  /-- Data to a device that asks for no acknowledgement. -/
  | unconfirmedDataDown
  /-- Data from a device, to be acknowledged. -/
  | confirmedDataUp
  /-- Data to a device, to be acknowledged. -/
  | confirmedDataDown
  /-- A device asks to join again. -/
  | rejoinRequest
  /-- A format of its own. -/
  | proprietary
  deriving DecidableEq

namespace MessageType

/-- All message types, in the order of their numbers. -/
def all : List MessageType :=
  [joinRequest, joinAccept, unconfirmedDataUp, unconfirmedDataDown, confirmedDataUp,
    confirmedDataDown, rejoinRequest, proprietary]

/-- The name of a message type. -/
def name : MessageType → String
  | joinRequest => "JoinRequest"
  | joinAccept => "JoinAccept"
  | unconfirmedDataUp => "UnconfirmedDataUp"
  | unconfirmedDataDown => "UnconfirmedDataDown"
  | confirmedDataUp => "ConfirmedDataUp"
  | confirmedDataDown => "ConfirmedDataDown"
  | rejoinRequest => "RejoinRequest"
  | proprietary => "Proprietary"

/-- The header byte of a message type under R1. -/
def header : MessageType → UInt8
  | joinRequest => 0x00
  | joinAccept => 0x20
  | unconfirmedDataUp => 0x40
  | unconfirmedDataDown => 0x60
  | confirmedDataUp => 0x80
  | confirmedDataDown => 0xA0
  | rejoinRequest => 0xC0
  | proprietary => 0xE0

/-- The message type in the top three bits of a byte. -/
def ofTopBits (byte : UInt8) : MessageType :=
  match (byte / 32).toNat with
  | 0 => joinRequest
  | 1 => joinAccept
  | 2 => unconfirmedDataUp
  | 3 => unconfirmedDataDown
  | 4 => confirmedDataUp
  | 5 => confirmedDataDown
  | 6 => rejoinRequest
  | _ => proprietary

/-- The message type of a header byte, whose version must be R1. The three bits
between are not looked at. -/
def ofHeader (byte : UInt8) : Except FrameError MessageType :=
  if byte % 4 = 0 then .ok (ofTopBits byte) else .error (.unsupportedMajor (byte % 4))

/-- The direction in which messages of a type travel, if they have one. -/
def direction? : MessageType → Option Direction
  | joinRequest | unconfirmedDataUp | confirmedDataUp => some .up
  | joinAccept | unconfirmedDataDown | confirmedDataDown => some .down
  | rejoinRequest | proprietary => none

/-- Whether a message carries a frame header and application data. -/
def isData : MessageType → Bool
  | unconfirmedDataUp | unconfirmedDataDown | confirmedDataUp | confirmedDataDown => true
  | _ => false

/-- Whether a message is one of the join procedure. -/
def isJoin : MessageType → Bool
  | joinRequest | joinAccept => true
  | _ => false

@[simp] theorem ofTopBits_header (m : MessageType) : ofTopBits m.header = m := by
  cases m <;> rfl

@[simp] theorem ofHeader_header (m : MessageType) : ofHeader m.header = .ok m := by
  cases m <;> rfl

theorem ofHeader_eq_ok_iff {m : MessageType} {b : UInt8} :
    ofHeader b = .ok m ↔ b % 4 = 0 ∧ m = ofTopBits b := by
  unfold ofHeader
  split
  · rename_i hb
    simp only [Except.ok.injEq, hb, true_and, eq_comm]
  · rename_i hb
    simp only [hb, false_and, reduceCtorEq]

theorem exists_direction_of_isData {m : MessageType} (h : m.isData = true) :
    ∃ d, m.direction? = some d := by
  cases m <;> simp_all [isData, direction?]

end MessageType

end LoraRelay
