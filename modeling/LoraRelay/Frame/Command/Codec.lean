import LoraRelay.Frame.Command

/-!
# Commands on the wire

A command is its identifier and a body of fixed length. Commands follow each other
without separators, so a list of them is read by taking one off the front until
nothing is left.

## The model

`encodeBody` lays out the fields of a command, whose range `encode` has checked
before; `ofBody?` reads a body of exactly the right length, which reserved bits do
not disturb. `decodeAll` and `encodeAll` are the two sides for lists.
-/

namespace LoraRelay.Command

/-! ### Fields -/

/-- The frequency sent as three bytes, low byte first. -/
def freqOfWire (a b c : UInt8) : UInt32 :=
  (a.toUInt32 + 256 * b.toUInt32 + 65536 * c.toUInt32) * 100

/-- The three bytes of a frequency, low byte first. -/
def freqToWire (freq : UInt32) : Bytes :=
  [(freq / 100).toUInt8, (freq / 100 / 256).toUInt8, (freq / 100 / 256 / 256).toUInt8]

/-- The signed number in the low six bits of a byte. -/
def marginOfWire (byte : UInt8) : Int8 :=
  if byte % 64 < 32 then (byte % 64).toInt8 else (byte % 64).toInt8 - 64

/-- A signed number in six bits. -/
def marginToWire (margin : Int8) : UInt8 := margin.toUInt8 % 64

/-! ### Bodies -/

/-- The body of a command. -/
def encodeBody : Command → Bytes
  | linkCheckReq | dutyCycleAns | devStatusReq | rxTimingSetupAns | txParamSetupAns => []
  | linkCheckAns margin gatewayCount => [margin, gatewayCount]
  | linkAdrReq dataRate txPower chMask chMaskCntl nbTrans =>
    nibbles dataRate txPower :: (le16 chMask).toList ++ [nibbles chMaskCntl nbTrans]
  | linkAdrAns powerAck dataRateAck channelMaskAck =>
    [weigh 4 powerAck + weigh 2 dataRateAck + weigh 1 channelMaskAck]
  | dutyCycleReq maxDutyCycle => [maxDutyCycle]
  | rxParamSetupReq rx1DrOffset rx2DataRate freq =>
    nibbles rx1DrOffset rx2DataRate :: freqToWire freq
  | rxParamSetupAns rx1DrOffsetAck rx2DataRateAck channelAck =>
    [weigh 4 rx1DrOffsetAck + weigh 2 rx2DataRateAck + weigh 1 channelAck]
  | devStatusAns battery margin => [battery, marginToWire margin]
  | newChannelReq chIndex freq maxDr minDr => chIndex :: freqToWire freq ++ [nibbles maxDr minDr]
  | newChannelAns channelFreqOk dataRateOk => [weigh 2 dataRateOk + weigh 1 channelFreqOk]
  | rxTimingSetupReq delay => [delay]
  | txParamSetupReq downlinkDwellTime uplinkDwellTime maxEirp =>
    [weigh 32 downlinkDwellTime + weigh 16 uplinkDwellTime + maxEirp]
  | dlChannelReq chIndex freq => chIndex :: freqToWire freq
  | dlChannelAns channelFreqOk uplinkFreqExists =>
    [weigh 2 uplinkFreqExists + weigh 1 channelFreqOk]

/-- The command with a given identifier and body, in a frame of a given direction.
Bits that no field has are not looked at. -/
def ofBody? (id : CommandId) (d : Direction) (body : Bytes) : Option Command :=
  match id, d with
  | .linkCheck, .up => if let [] := body then some linkCheckReq else none
  | .linkCheck, .down =>
    if let [margin, gatewayCount] := body then some (linkCheckAns margin gatewayCount) else none
  | .linkAdr, .up =>
    if let [b] := body then some (linkAdrAns (flag 4 b) (flag 2 b) (flag 1 b)) else none
  | .linkAdr, .down =>
    if let [a, lo, hi, b] := body then
      some (linkAdrReq (a / 16) (a % 16) (ofLe16 lo hi) (b / 16 % 8) (b % 16))
    else none
  | .dutyCycle, .up => if let [] := body then some dutyCycleAns else none
  | .dutyCycle, .down => if let [b] := body then some (dutyCycleReq (b % 16)) else none
  | .rxParamSetup, .up =>
    if let [b] := body then some (rxParamSetupAns (flag 4 b) (flag 2 b) (flag 1 b)) else none
  | .rxParamSetup, .down =>
    if let [a, x, y, z] := body then
      some (rxParamSetupReq (a / 16 % 8) (a % 16) (freqOfWire x y z))
    else none
  | .devStatus, .up =>
    if let [battery, b] := body then some (devStatusAns battery (marginOfWire b)) else none
  | .devStatus, .down => if let [] := body then some devStatusReq else none
  | .newChannel, .up =>
    if let [b] := body then some (newChannelAns (flag 1 b) (flag 2 b)) else none
  | .newChannel, .down =>
    if let [chIndex, x, y, z, b] := body then
      some (newChannelReq chIndex (freqOfWire x y z) (b / 16) (b % 16))
    else none
  | .rxTimingSetup, .up => if let [] := body then some rxTimingSetupAns else none
  | .rxTimingSetup, .down => if let [b] := body then some (rxTimingSetupReq (b % 16)) else none
  | .txParamSetup, .up => if let [] := body then some txParamSetupAns else none
  | .txParamSetup, .down =>
    if let [b] := body then some (txParamSetupReq (flag 32 b) (flag 16 b) (b % 16)) else none
  | .dlChannel, .up =>
    if let [b] := body then some (dlChannelAns (flag 1 b) (flag 2 b)) else none
  | .dlChannel, .down =>
    if let [chIndex, x, y, z] := body then some (dlChannelReq chIndex (freqOfWire x y z)) else none

/-! ### Bodies are read back -/

/-- The layout of a body has the length that the identifier and direction fix. -/
theorem length_encodeBody (c : Command) : c.encodeBody.length = c.bodyLength := by
  cases c <;> simp [encodeBody, bodyLength, CommandId.bodyLength, id, direction, freqToWire]

theorem isSome_ofBody?_iff {id : CommandId} {d : Direction} {body : Bytes} :
    (ofBody? id d body).isSome ↔ body.length = id.bodyLength d := by
  cases id <;> cases d <;>
    rcases body with _ | ⟨_, _ | ⟨_, _ | ⟨_, _ | ⟨_, _ | ⟨_, _ | _⟩⟩⟩⟩⟩ <;>
    simp [ofBody?, CommandId.bodyLength]

/-- A number of three bytes is the sum of its bytes. -/
theorem sum_of_three_bytes {n : Nat} (h : n < 0x1000000) :
    n % 256 + 256 * (n / 256 % 256) + 65536 * (n / 256 / 256 % 256) = n := by
  omega

theorem freqOfWire_freqToWire {freq : UInt32} (h : FreqFits freq) :
    freqOfWire (freq / 100).toUInt8 (freq / 100 / 256).toUInt8 (freq / 100 / 256 / 256).toUInt8 =
      freq := by
  obtain ⟨h₁, h₂⟩ := h
  apply UInt32.toNat_inj.1
  have h₁ := congrArg UInt32.toNat h₁
  rw [UInt32.lt_iff_toNat_lt] at h₂
  simp at h₁ h₂
  simp [freqOfWire, UInt32.toNat_add, UInt32.toNat_mul, sum_of_three_bytes h₂]
  omega

theorem marginOfWire_marginToWire {margin : Int8} (h : -32 ≤ margin ∧ margin ≤ 31) :
    marginOfWire (marginToWire margin) = margin := by
  have key : ∀ i : Fin 256, let m := Int8.ofBitVec ⟨i⟩
      (-32 ≤ m ∧ m ≤ 31) → marginOfWire (marginToWire m) = m := by
    decide +kernel
  exact key margin.toBitVec.toFin h

/-- Two flags above a nibble do not disturb it, nor it them. -/
theorem flags_above_nibble {n : UInt8} (h : n < 16) (a b : Bool) :
    flag 32 (weigh 32 a + weigh 16 b + n) = a ∧ flag 16 (weigh 32 a + weigh 16 b + n) = b ∧
      (weigh 32 a + weigh 16 b + n) % 16 = n := by
  have key : ∀ i : Fin 16, ∀ a b : Bool, let n := UInt8.ofNat i
      flag 32 (weigh 32 a + weigh 16 b + n) = a ∧ flag 16 (weigh 32 a + weigh 16 b + n) = b ∧
        (weigh 32 a + weigh 16 b + n) % 16 = n := by
    decide +kernel
  rw [UInt8.lt_iff_toNat_lt] at h
  simpa using key ⟨n.toNat, by simpa using h⟩ a b

/-- A body of fields in range is read as the command it was made of. -/
theorem ofBody?_encodeBody {c : Command} (h : c.InRange) :
    ofBody? c.id c.direction c.encodeBody = some c := by
  cases c with
  | linkAdrReq dataRate txPower chMask chMaskCntl nbTrans =>
    obtain ⟨h₁, h₂, h₃, h₄⟩ := h
    have h₅ : chMaskCntl < 16 := UInt8.lt_trans h₃ (by decide)
    simp [id, direction, encodeBody, ofBody?, le16, nibbles_div h₁ h₂, nibbles_mod h₂,
      nibbles_div h₅ h₄, nibbles_mod h₄, uint8_mod_of_lt h₃, ofLe16_le16]
  | linkAdrAns a b c => cases a <;> cases b <;> cases c <;> rfl
  | dutyCycleReq maxDutyCycle =>
    rw [InRange] at h
    simp [id, direction, encodeBody, ofBody?, uint8_mod_of_lt h]
  | rxParamSetupReq rx1DrOffset rx2DataRate freq =>
    obtain ⟨h₁, h₂, h₃⟩ := h
    have h₄ : rx1DrOffset < 16 := UInt8.lt_trans h₁ (by decide)
    simp [id, direction, encodeBody, ofBody?, freqToWire, nibbles_div h₄ h₂, nibbles_mod h₂,
      uint8_mod_of_lt h₁, freqOfWire_freqToWire h₃]
  | rxParamSetupAns a b c => cases a <;> cases b <;> cases c <;> rfl
  | devStatusAns battery margin =>
    simp [id, direction, encodeBody, ofBody?, marginOfWire_marginToWire h]
  | newChannelReq chIndex freq maxDr minDr =>
    obtain ⟨h₁, h₂, h₃⟩ := h
    simp [id, direction, encodeBody, ofBody?, freqToWire, nibbles_div h₂ h₃, nibbles_mod h₃,
      freqOfWire_freqToWire h₁]
  | newChannelAns a b => cases a <;> cases b <;> rfl
  | rxTimingSetupReq delay =>
    rw [InRange] at h
    simp [id, direction, encodeBody, ofBody?, uint8_mod_of_lt h]
  | txParamSetupReq a b maxEirp =>
    obtain ⟨h₁, h₂, h₃⟩ := flags_above_nibble h a b
    simp [id, direction, encodeBody, ofBody?, h₁, h₂, h₃]
  | dlChannelReq chIndex freq =>
    rw [InRange] at h
    simp [id, direction, encodeBody, ofBody?, freqToWire, freqOfWire_freqToWire h]
  | dlChannelAns a b => cases a <;> cases b <;> rfl
  | _ => rfl

/-! ### Encoding -/

/-- A command with its identifier in front, if its fields are in range. -/
def encode (c : Command) : Except FrameError Bytes :=
  if c.InRange then .ok (c.id.number :: c.encodeBody)
  else .error (.commandFieldOutOfRange c.id.number)

/-- A command of a frame that travels in direction `d`. -/
def encodeFor (d : Direction) (c : Command) : Except FrameError Bytes :=
  if c.direction = d then c.encode else .error (.commandDirection c.id.number d)

/-- Commands one after the other. -/
def encodeAll (d : Direction) : List Command → Except FrameError Bytes
  | [] => .ok []
  | c :: cs => do
    let bytes ← c.encodeFor d
    let rest ← encodeAll d cs
    return bytes ++ rest

/-- Commands one after the other, for which there are `room` bytes. Whether a command
is a right one is asked before whether it fits. -/
def encodeWithin (d : Direction) (room : Nat) : List Command → Except FrameError Bytes
  | [] => .ok []
  | c :: cs => do
    let bytes ← c.encodeFor d
    if room < bytes.length then throw .optionsTooLong
    let rest ← encodeWithin d (room - bytes.length) cs
    return bytes ++ rest

/-! ### Decoding -/

/-- The command at the front, its identifier `number` being taken off already, and
the bytes after it. -/
def decodeOne (d : Direction) (number : UInt8) (rest : Bytes) :
    Except FrameError (Command × Bytes) :=
  match CommandId.ofNumber? number with
  | none => .error (.unknownCommand number d)
  | some id =>
    match ofBody? id d (rest.take (id.bodyLength d)) with
    | none => .error (.truncatedCommand number)
    | some c => .ok (c, rest.drop (id.bodyLength d))

theorem length_of_decodeOne {d : Direction} {number : UInt8} {bytes rest : Bytes} {c : Command}
    (h : decodeOne d number bytes = .ok (c, rest)) : rest.length ≤ bytes.length := by
  unfold decodeOne at h
  split at h
  · cases h
  · split at h
    · cases h
    · cases h
      simp

theorem decodeOne_encodeBody {c : Command} (h : c.InRange) (rest : Bytes) :
    decodeOne c.direction c.id.number (c.encodeBody ++ rest) = .ok (c, rest) := by
  have hl : c.id.bodyLength c.direction = c.encodeBody.length := (length_encodeBody c).symm
  simp [decodeOne, hl, ofBody?_encodeBody h]

/-- The commands that follow each other in a string. -/
def decodeAll (d : Direction) : Bytes → Except FrameError (List Command)
  | [] => .ok []
  | number :: bytes =>
    match _h : decodeOne d number bytes with
    | .error e => .error e
    | .ok (c, rest) => do
      let cs ← decodeAll d rest
      return c :: cs
termination_by bytes => bytes.length
decreasing_by
  have := length_of_decodeOne _h
  simp
  omega

theorem decodeAll_nil (d : Direction) : decodeAll d [] = .ok [] := by
  rw [decodeAll]

theorem decodeAll_cons_of_ok {d : Direction} {number : UInt8} {bytes rest : Bytes} {c : Command}
    (h : decodeOne d number bytes = .ok (c, rest)) :
    decodeAll d (number :: bytes) = (decodeAll d rest).map (c :: ·) := by
  rw [decodeAll]
  split
  · rename_i he
    rw [h] at he
    cases he
  · rename_i he
    rw [h] at he
    cases he
    cases decodeAll d rest <;> rfl

theorem decodeAll_cons_of_error {d : Direction} {number : UInt8} {bytes : Bytes} {e : FrameError}
    (h : decodeOne d number bytes = .error e) : decodeAll d (number :: bytes) = .error e := by
  rw [decodeAll]
  split
  · rename_i he
    rw [h] at he
    cases he
    rfl
  · rename_i he
    rw [h] at he
    cases he

theorem decodeAll_encodeFor {d : Direction} {c : Command} {bytes : Bytes}
    (h : c.encodeFor d = .ok bytes) (rest : Bytes) :
    decodeAll d (bytes ++ rest) = (decodeAll d rest).map (c :: ·) := by
  unfold encodeFor at h
  split at h
  · rename_i hd
    subst hd
    unfold encode at h
    split at h
    · rename_i hr
      cases h
      rw [List.cons_append, decodeAll_cons_of_ok (decodeOne_encodeBody hr rest)]
    · cases h
  · cases h

end LoraRelay.Command
