import LoraRelay.Frame.Error

/-!
# MAC commands

The network and a device steer the radio link with short commands. A request and
its answer share an identifier (`CommandId`); the direction of the frame tells
them apart, and with it fixes the length of the body.
-/

namespace LoraRelay

/-! ### Identifiers -/

/-- What a command is about. -/
inductive CommandId where
  /-- A check of the link. -/
  | linkCheck
  /-- The adaptive data rate. -/
  | linkAdr
  /-- A limit on the duty cycle. -/
  | dutyCycle
  /-- The receive windows. -/
  | rxParamSetup
  /-- The status of a device. -/
  | devStatus
  /-- A channel, new or changed. -/
  | newChannel
  /-- The delay of the first receive window. -/
  | rxTimingSetup
  /-- Dwell time and radiated power. -/
  | txParamSetup
  /-- The downlink frequency of a channel. -/
  | dlChannel
  deriving DecidableEq

namespace CommandId

/-- All identifiers, in the order of their numbers. -/
def all : List CommandId :=
  [linkCheck, linkAdr, dutyCycle, rxParamSetup, devStatus, newChannel, rxTimingSetup, txParamSetup,
    dlChannel]

/-- The number of an identifier. -/
def number : CommandId → UInt8
  | linkCheck => 0x02
  | linkAdr => 0x03
  | dutyCycle => 0x04
  | rxParamSetup => 0x05
  | devStatus => 0x06
  | newChannel => 0x07
  | rxTimingSetup => 0x08
  | txParamSetup => 0x09
  | dlChannel => 0x0A

/-- The identifier with a given number. -/
def ofNumber? (number : UInt8) : Option CommandId := all.find? (·.number = number)

/-- The name of an identifier. -/
def name : CommandId → String
  | linkCheck => "LinkCheck"
  | linkAdr => "LinkADR"
  | dutyCycle => "DutyCycle"
  | rxParamSetup => "RXParamSetup"
  | devStatus => "DevStatus"
  | newChannel => "NewChannel"
  | rxTimingSetup => "RXTimingSetup"
  | txParamSetup => "TxParamSetup"
  | dlChannel => "DlChannel"

/-- How many bytes follow the identifier in a frame of a given direction. -/
def bodyLength : CommandId → Direction → Nat
  | linkCheck, .up => 0
  | linkCheck, .down => 2
  | linkAdr, .up => 1
  | linkAdr, .down => 4
  | dutyCycle, .up => 0
  | dutyCycle, .down => 1
  | rxParamSetup, .up => 1
  | rxParamSetup, .down => 4
  | devStatus, .up => 2
  | devStatus, .down => 0
  | newChannel, .up => 1
  | newChannel, .down => 5
  | rxTimingSetup, .up => 0
  | rxTimingSetup, .down => 1
  | txParamSetup, .up => 0
  | txParamSetup, .down => 1
  | dlChannel, .up => 1
  | dlChannel, .down => 4

@[simp] theorem ofNumber?_number (id : CommandId) : ofNumber? id.number = some id := by
  cases id <;> rfl

theorem ofNumber?_eq_some_iff {number : UInt8} {id : CommandId} :
    ofNumber? number = some id ↔ number = id.number := by
  constructor
  · intro h
    have := List.find?_some h
    simp only [decide_eq_true_eq] at this
    exact this.symm
  · rintro rfl
    exact ofNumber?_number id

end CommandId

/-! ### Commands -/

/-- A command of the link layer. Frequencies are in Hz. -/
inductive Command where
  /-- A device asks how well it is heard. -/
  | linkCheckReq
  /-- The link margin in dB and how many gateways heard the request. -/
  | linkCheckAns (margin gatewayCount : UInt8)
  /-- The data rate, power, channels and number of transmissions to use. -/
  | linkAdrReq (dataRate txPower : UInt8) (chMask : UInt16) (chMaskCntl nbTrans : UInt8)
  /-- Which of them are taken over. -/
  | linkAdrAns (powerAck dataRateAck channelMaskAck : Bool)
  /-- The largest duty cycle. -/
  | dutyCycleReq (maxDutyCycle : UInt8)
  /-- The duty cycle is taken over. -/
  | dutyCycleAns
  /-- The parameters of the receive windows. -/
  | rxParamSetupReq (rx1DrOffset rx2DataRate : UInt8) (freq : UInt32)
  /-- Which of them are taken over. -/
  | rxParamSetupAns (rx1DrOffsetAck rx2DataRateAck channelAck : Bool)
  /-- The network asks for the status. -/
  | devStatusReq
  /-- The battery level and the demodulation margin in dB. -/
  | devStatusAns (battery : UInt8) (margin : Int8)
  /-- A channel and its data rates. -/
  | newChannelReq (chIndex : UInt8) (freq : UInt32) (maxDr minDr : UInt8)
  /-- Which of them are taken over. -/
  | newChannelAns (channelFreqOk dataRateOk : Bool)
  /-- The delay before the first receive window. -/
  | rxTimingSetupReq (delay : UInt8)
  /-- The delay is taken over. -/
  | rxTimingSetupAns
  /-- The dwell times and the largest radiated power. -/
  | txParamSetupReq (downlinkDwellTime uplinkDwellTime : Bool) (maxEirp : UInt8)
  /-- They are taken over. -/
  | txParamSetupAns
  /-- The downlink frequency of a channel. -/
  | dlChannelReq (chIndex : UInt8) (freq : UInt32)
  /-- Whether it can be used. -/
  | dlChannelAns (channelFreqOk uplinkFreqExists : Bool)
  deriving DecidableEq

namespace Command

/-- What a command is about. -/
def id : Command → CommandId
  | linkCheckReq | linkCheckAns .. => .linkCheck
  | linkAdrReq .. | linkAdrAns .. => .linkAdr
  | dutyCycleReq .. | dutyCycleAns => .dutyCycle
  | rxParamSetupReq .. | rxParamSetupAns .. => .rxParamSetup
  | devStatusReq | devStatusAns .. => .devStatus
  | newChannelReq .. | newChannelAns .. => .newChannel
  | rxTimingSetupReq .. | rxTimingSetupAns => .rxTimingSetup
  | txParamSetupReq .. | txParamSetupAns => .txParamSetup
  | dlChannelReq .. | dlChannelAns .. => .dlChannel

/-- Where a command travels. -/
def direction : Command → Direction
  | linkCheckReq | linkAdrAns .. | dutyCycleAns | rxParamSetupAns .. | devStatusAns ..
  | newChannelAns .. | rxTimingSetupAns | txParamSetupAns | dlChannelAns .. => .up
  | linkCheckAns .. | linkAdrReq .. | dutyCycleReq .. | rxParamSetupReq .. | devStatusReq
  | newChannelReq .. | rxTimingSetupReq .. | txParamSetupReq .. | dlChannelReq .. => .down

/-- How many bytes the body takes, the identifier not counted. -/
def bodyLength (c : Command) : Nat := c.id.bodyLength c.direction

/-- A frequency is sent in units of 100 Hz, in three bytes. -/
def FreqFits (freq : UInt32) : Prop := freq % 100 = 0 ∧ freq / 100 < 0x1000000

instance (freq : UInt32) : Decidable (FreqFits freq) := inferInstanceAs (Decidable (_ ∧ _))

/-- Every field fits the bits that it has on the wire. -/
def InRange : Command → Prop
  | linkAdrReq dataRate txPower _ chMaskCntl nbTrans =>
    dataRate < 16 ∧ txPower < 16 ∧ chMaskCntl < 8 ∧ nbTrans < 16
  | dutyCycleReq maxDutyCycle => maxDutyCycle < 16
  | rxParamSetupReq rx1DrOffset rx2DataRate freq =>
    rx1DrOffset < 8 ∧ rx2DataRate < 16 ∧ FreqFits freq
  | devStatusAns _ margin => -32 ≤ margin ∧ margin ≤ 31
  | newChannelReq _ freq maxDr minDr => FreqFits freq ∧ maxDr < 16 ∧ minDr < 16
  | rxTimingSetupReq delay => delay < 16
  | txParamSetupReq _ _ maxEirp => maxEirp < 16
  | dlChannelReq _ freq => FreqFits freq
  | _ => True

instance (c : Command) : Decidable c.InRange := by
  cases c <;> dsimp only [InRange] <;> infer_instance

end Command

end LoraRelay
