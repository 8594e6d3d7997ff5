import LoraRelay.Frame.Basic
import LoraRelay.Record

/-!
# Frames as texts

Frames, their payloads and MAC commands as they are shown to people, with every
field and all bytes in decimal.
-/

namespace LoraRelay

open Record

/-! ### Identifiers -/

/-- The bytes of an identifier. -/
def Eui.bytesText (e : Eui) : String := wrap "EUI64" (numbers e.bytes.toList)

/-- The bytes of an address. -/
def DevAddr.bytesText (a : DevAddr) : String := wrap "DevAddr" (numbers a.bytes.toList)

/-- What is shown of a key, which is nothing. -/
def Key.hiddenText (_ : Key) : String := wrap "AESKey" ".."

/-! ### Commands -/

namespace Command

/-- The name of a command. -/
def name : Command → String
  | linkCheckReq => "LinkCheckReq"
  | linkCheckAns .. => "LinkCheckAns"
  | linkAdrReq .. => "LinkADRReq"
  | linkAdrAns .. => "LinkADRAns"
  | dutyCycleReq .. => "DutyCycleReq"
  | dutyCycleAns => "DutyCycleAns"
  | rxParamSetupReq .. => "RXParamSetupReq"
  | rxParamSetupAns .. => "RXParamSetupAns"
  | devStatusReq => "DevStatusReq"
  | devStatusAns .. => "DevStatusAns"
  | newChannelReq .. => "NewChannelReq"
  | newChannelAns .. => "NewChannelAns"
  | rxTimingSetupReq .. => "RXTimingSetupReq"
  | rxTimingSetupAns => "RXTimingSetupAns"
  | txParamSetupReq .. => "TxParamSetupReq"
  | txParamSetupAns => "TxParamSetupAns"
  | dlChannelReq .. => "DlChannelReq"
  | dlChannelAns .. => "DlChannelAns"

/-- The value of a field of a command. -/
inductive FieldValue where
  /-- An integer. -/
  | int (i : Int)
  /-- A truth value. -/
  | bool (b : Bool)
  deriving DecidableEq

/-- A byte as a value. -/
def FieldValue.ofByte (b : UInt8) : FieldValue := int b.toNat

/-- The text of a value. -/
def FieldValue.text : FieldValue → String
  | int i => toString i
  | bool b => toString b

/-- The fields of a command with their names, in order. -/
def fields : Command → List (String × FieldValue)
  | linkCheckReq | dutyCycleAns | devStatusReq | rxTimingSetupAns | txParamSetupAns => []
  | linkCheckAns margin gatewayCount =>
    [("margin", .ofByte margin), ("gateway_count", .ofByte gatewayCount)]
  | linkAdrReq dataRate txPower chMask chMaskCntl nbTrans =>
    [("data_rate", .ofByte dataRate), ("tx_power", .ofByte txPower),
      ("ch_mask", .int chMask.toNat), ("ch_mask_cntl", .ofByte chMaskCntl),
      ("nb_trans", .ofByte nbTrans)]
  | linkAdrAns powerAck dataRateAck channelMaskAck =>
    [("power_ack", .bool powerAck), ("data_rate_ack", .bool dataRateAck),
      ("channel_mask_ack", .bool channelMaskAck)]
  | dutyCycleReq maxDutyCycle => [("max_duty_cycle", .ofByte maxDutyCycle)]
  | rxParamSetupReq rx1DrOffset rx2DataRate freq =>
    [("rx1_dr_offset", .ofByte rx1DrOffset), ("rx2_data_rate", .ofByte rx2DataRate),
      ("freq", .int freq.toNat)]
  | rxParamSetupAns rx1DrOffsetAck rx2DataRateAck channelAck =>
    [("rx1_dr_offset_ack", .bool rx1DrOffsetAck), ("rx2_data_rate_ack", .bool rx2DataRateAck),
      ("channel_ack", .bool channelAck)]
  | devStatusAns battery margin => [("battery", .ofByte battery), ("margin", .int margin.toInt)]
  | newChannelReq chIndex freq maxDr minDr =>
    [("ch_index", .ofByte chIndex), ("freq", .int freq.toNat), ("max_dr", .ofByte maxDr),
      ("min_dr", .ofByte minDr)]
  | newChannelAns channelFreqOk dataRateOk =>
    [("channel_freq_ok", .bool channelFreqOk), ("data_rate_ok", .bool dataRateOk)]
  | rxTimingSetupReq delay => [("delay", .ofByte delay)]
  | txParamSetupReq downlinkDwellTime uplinkDwellTime maxEirp =>
    [("downlink_dwell_time", .bool downlinkDwellTime), ("uplink_dwell_time", .bool uplinkDwellTime),
      ("max_eirp", .ofByte maxEirp)]
  | dlChannelReq chIndex freq => [("ch_index", .ofByte chIndex), ("freq", .int freq.toNat)]
  | dlChannelAns channelFreqOk uplinkFreqExists =>
    [("channel_freq_ok", .bool channelFreqOk), ("uplink_freq_exists", .bool uplinkFreqExists)]

/-- The text of a command: a name alone, if it has no fields. -/
def text (c : Command) : String :=
  match c.fields with
  | [] => c.name
  | fs => record c.name (fs.map fun (field, value) => (field, value.text))

end Command

/-! ### Payloads -/

/-- The text of an element. -/
def PortItem.text : PortItem → String
  | data bs => wrap "Data" (record "DataPayload" [("bytes", numbers bs)])
  | command c => wrap "MacCommand" c.text

/-- The text of the flags. -/
def FrameControl.text (f : FrameControl) : String :=
  record "FCtrl" [("adr", toString f.adr), ("adr_ack_req", toString f.adrAckReq),
    ("ack", toString f.ack), ("f_pending", toString f.fPending)]

/-- The text of a frame header. -/
def FrameHeader.text (h : FrameHeader) : String :=
  record "FHDR" [("dev_addr", h.address.bytesText), ("f_ctrl", h.control.text),
    ("f_cnt", toString h.counter.toNat), ("f_opts", list (h.options.map Command.text))]

/-- The text of a data payload. -/
def DataPayload.text (p : DataPayload) : String :=
  record "MacPayload" [("fhdr", p.header.text),
    ("f_port", optional (p.port.map fun port => toString port.toNat)),
    ("frm_payload", list (p.items.map PortItem.text))]

/-- The text of a request to join. -/
def JoinRequest.text (r : JoinRequest) : String :=
  record "JoinRequestPayload" [("app_eui", r.appEui.bytesText), ("dev_eui", r.devEui.bytesText),
    ("dev_nonce", numbers r.devNonce.toList)]

/-- The text of the answer. -/
def JoinAccept.text (a : JoinAccept) : String :=
  record "JoinAcceptPayload" [("app_nonce", numbers a.appNonce.toList),
    ("net_id", numbers a.netId.toList), ("dev_addr", a.address.bytesText),
    ("dl_settings", toString a.dlSettings.toNat), ("rx_delay", toString a.rxDelay.toNat),
    ("cf_list", optional (a.cfList.map fun v => numbers v.toList))]

/-- The text of a payload. -/
def Payload.text : Payload → String
  | data p => wrap "Data" p.text
  | joinRequest r => wrap "JoinRequest" r.text
  | joinAccept a => wrap "JoinAccept" a.text
  | proprietary bs => wrap "Proprietary" (numbers bs)

/-- The text of a frame. -/
def Frame.text (f : Frame) : String :=
  record "PhyPayload"
    [("mhdr", record "MHDR" [("mtype", f.messageType.name), ("major", "LoRaWANR1")]),
      ("mac_payload", optional (f.payload.map Payload.text)), ("mic", numbers f.mic.toList)]

end LoraRelay
