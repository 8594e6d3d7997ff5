import LoraRelay.Proofs.Command.Sequence
import LoraRelay.Proofs.Mask

/-!
# Reserved bits of commands

Some bits of the body of a command belong to no field. A reader does not look at
them and a writer leaves them zero.

## The model

`CommandId.reserved` is the mask of a body. `Command.reserved` is the mask of a
sequence: it goes over the bytes one by one and knows only which masks are still to
come for the body it is in, so that it is defined for all strings and has always
their length.

## What is proved

* `encodeBody_of_ofBody?` — a body that was read is written as it was, with the
  reserved bits cleared, and its fields are in range.
* `encodeAll_of_decodeAll` — so is a sequence. In particular no writer refuses what
  a reader has found.
-/

namespace LoraRelay

/-! ### Bodies -/

/-- The bits of a body that no field has. -/
def CommandId.reserved : CommandId → Direction → Bytes
  | linkCheck, .up => []
  | linkCheck, .down => [0, 0]
  | linkAdr, .up => [0xF8]
  | linkAdr, .down => [0, 0, 0, 0x80]
  | dutyCycle, .up => []
  | dutyCycle, .down => [0xF0]
  | rxParamSetup, .up => [0xF8]
  | rxParamSetup, .down => [0x80, 0, 0, 0]
  | devStatus, .up => [0, 0xC0]
  | devStatus, .down => []
  | newChannel, .up => [0xFC]
  | newChannel, .down => [0, 0, 0, 0, 0]
  | rxTimingSetup, .up => []
  | rxTimingSetup, .down => [0xF0]
  | txParamSetup, .up => []
  | txParamSetup, .down => [0xC0]
  | dlChannel, .up => [0xFC]
  | dlChannel, .down => [0, 0, 0, 0]

theorem CommandId.length_reserved (id : CommandId) (d : Direction) :
    (id.reserved d).length = id.bodyLength d := by
  cases id <;> cases d <;> rfl

namespace Command

/-! ### Fields that were read -/

theorem freqOfWire_toNat (a b c : UInt8) :
    (freqOfWire a b c).toNat = (a.toNat + 256 * b.toNat + 65536 * c.toNat) * 100 := by
  have := a.toNat_lt
  have := b.toNat_lt
  have := c.toNat_lt
  simp [freqOfWire, UInt32.toNat_add, UInt32.toNat_mul]
  omega

theorem freqFits_freqOfWire (a b c : UInt8) : FreqFits (freqOfWire a b c) := by
  have hn := freqOfWire_toNat a b c
  have := a.toNat_lt
  have := b.toNat_lt
  have := c.toNat_lt
  constructor
  · apply UInt32.toNat_inj.1
    simp [hn]
  · rw [UInt32.lt_iff_toNat_lt]
    simp [hn]
    omega

theorem freqToWire_freqOfWire (a b c : UInt8) : freqToWire (freqOfWire a b c) = [a, b, c] := by
  have hn := freqOfWire_toNat a b c
  have := a.toNat_lt
  have := b.toNat_lt
  have := c.toNat_lt
  simp only [freqToWire, List.cons.injEq, and_true, ← UInt8.toNat_inj]
  simp [hn]
  omega

theorem marginToWire_marginOfWire (b : UInt8) : marginToWire (marginOfWire b) = b &&& ~~~0xC0 := by
  revert b
  exact forall_byte (by decide +kernel)

theorem marginOfWire_bounds (b : UInt8) : -32 ≤ marginOfWire b ∧ marginOfWire b ≤ 31 := by
  revert b
  exact forall_byte (by decide +kernel)

theorem div_sixteen_lt (b : UInt8) : b / 16 < 16 := by
  revert b
  exact forall_byte (by decide +kernel)

theorem mod_sixteen_lt (b : UInt8) : b % 16 < 16 := by
  revert b
  exact forall_byte (by decide +kernel)

theorem mod_eight_lt (b : UInt8) : b % 8 < 8 := by
  revert b
  exact forall_byte (by decide +kernel)

/-! ### Bodies that were read -/

theorem id_direction_of_ofBody? {id : CommandId} {d : Direction} {body : Bytes} {c : Command}
    (h : ofBody? id d body = some c) : c.id = id ∧ c.direction = d := by
  cases id <;> cases d <;> simp only [ofBody?] at h <;> split at h <;> cases h <;> exact ⟨rfl, rfl⟩

theorem inRange_of_ofBody? {id : CommandId} {d : Direction} {body : Bytes} {c : Command}
    (h : ofBody? id d body = some c) : c.InRange := by
  cases id <;> cases d <;> simp only [ofBody?] at h <;> split at h <;> cases h <;>
    simp [InRange, div_sixteen_lt, mod_sixteen_lt, mod_eight_lt, freqFits_freqOfWire,
      marginOfWire_bounds]

/-- **A body that was read is written as it was**, with the reserved bits cleared. -/
theorem encodeBody_of_ofBody? {id : CommandId} {d : Direction} {body : Bytes} {c : Command}
    (h : ofBody? id d body = some c) : c.encodeBody = clear (id.reserved d) body := by
  cases id <;> cases d <;> simp only [ofBody?] at h <;> split at h <;> cases h <;>
    simp only [encodeBody, CommandId.reserved, clear_cons, clear_nil, and_not_zero, nibbles_div_mod,
      nibbles_div_mod_eight, le16_ofLe16, weigh_flag_three, weigh_flag_two, weigh_flag_nibble,
      and_not_high, freqToWire_freqOfWire, marginToWire_marginOfWire, List.cons_append,
      List.nil_append]

/-- A command that was read is written with the reserved bits of its body cleared. -/
theorem encodeFor_of_ofBody? {id : CommandId} {d : Direction} {body : Bytes} {c : Command}
    (h : ofBody? id d body = some c) :
    c.encodeFor d = .ok (id.number :: clear (id.reserved d) body) := by
  obtain ⟨hid, hd⟩ := id_direction_of_ofBody? h
  rw [encodeFor, if_pos hd, encode, if_pos (inRange_of_ofBody? h), hid, encodeBody_of_ofBody? h]

/-! ### Sequences -/

/-- The reserved bits of a sequence of commands of which the first body has begun:
`masks` are those of the bytes that it still has. -/
def reservedFrom (d : Direction) : (masks : Bytes) → Bytes → Bytes
  | _, [] => []
  | m :: masks, _ :: bytes => m :: reservedFrom d masks bytes
  | [], number :: bytes =>
    0 :: reservedFrom d (((CommandId.ofNumber? number).map (·.reserved d)).getD []) bytes

/-- The reserved bits of a sequence of commands. -/
def reserved (d : Direction) (bytes : Bytes) : Bytes := reservedFrom d [] bytes

@[simp] theorem length_reservedFrom (d : Direction) (masks bytes : Bytes) :
    (reservedFrom d masks bytes).length = bytes.length := by
  induction bytes generalizing masks with
  | nil => cases masks <;> rfl
  | cons b bytes ih => cases masks <;> simp [reservedFrom, ih]

@[simp] theorem length_reserved (d : Direction) (bytes : Bytes) :
    (reserved d bytes).length = bytes.length :=
  length_reservedFrom d [] bytes

theorem reservedFrom_append {d : Direction} {masks body : Bytes}
    (h : masks.length = body.length) (bytes : Bytes) :
    reservedFrom d masks (body ++ bytes) = masks ++ reserved d bytes := by
  induction body generalizing masks with
  | nil =>
    rw [List.length_nil, List.length_eq_zero_iff] at h
    rw [h]
    rfl
  | cons b body ih =>
    cases masks with
    | nil => simp at h
    | cons m masks => simp [reservedFrom, ih (by simpa using h)]

/-- The mask of a sequence is made of those of its commands. -/
theorem reserved_cons_append {id : CommandId} {d : Direction} {body : Bytes}
    (h : body.length = id.bodyLength d) (bytes : Bytes) :
    reserved d (id.number :: (body ++ bytes)) = 0 :: (id.reserved d ++ reserved d bytes) := by
  have hl : (id.reserved d).length = body.length := by rw [CommandId.length_reserved, h]
  rw [reserved, reservedFrom, CommandId.ofNumber?_number]
  exact congrArg _ (reservedFrom_append hl bytes)

/-- **Commands that were read are written as they were**, with the reserved bits
cleared. -/
theorem encodeAll_of_decodeAll {d : Direction} {bytes : Bytes} {cs : List Command}
    (h : decodeAll d bytes = .ok cs) : encodeAll d cs = .ok (clear (reserved d bytes) bytes) := by
  rw [decodeAll_eq_ok_iff] at h
  induction h with
  | nil => rfl
  | @cons id body bytes c cs hb _ ih =>
    have hl := length_of_ofBody? hb
    refine encodeAll_cons_eq_ok_iff.2 ⟨_, _, encodeFor_of_ofBody? hb, ih, ?_⟩
    rw [reserved_cons_append hl, clear_cons, and_not_zero,
      clear_append (by rw [CommandId.length_reserved, hl])]
    rfl

end Command

end LoraRelay
