import LoraRelay.Binary64.Basic

/-!
# Metadata

Next to a frame travels what a gateway knows about it: channel, data rate, signal
quality, times and duty cycle. Nothing here judges the values; they are only moved.

## The model

Twenty fields, each of which may be unset (`Metadata`). A field has a key, and a key
has the kind of its values (`Metadata.Key.kind`), so that writing and reading go through
`Metadata.get` and `Metadata.set` for all fields alike.
-/

namespace LoraRelay

namespace Metadata

/-! ### Keys -/

/-- What values a field has. -/
inductive Kind where
  /-- Natural numbers of 32 bits. -/
  | unsigned
  /-- Integers of 32 bits. -/
  | signed
  /-- Texts. -/
  | text
  /-- Truth values. -/
  | flag
  /-- Floating-point numbers. -/
  | real
  deriving DecidableEq

/-- The values of a kind. -/
abbrev Kind.Value : Kind → Type
  | unsigned => UInt32
  | signed => Int32
  | text => String
  | flag => Bool
  | real => Binary64

/-- The key of a field. -/
inductive Key where
  /-- The duty cycle of the first receive window. -/
  | dutyRx1
  /-- The duty cycle of the second receive window. -/
  | dutyRx2
  /-- The channel of the concentrator. -/
  | chan
  /-- The coding rate. -/
  | codr
  /-- The data rate. -/
  | datr
  /-- The frequency deviation in Hz. -/
  | fdev
  /-- The frequency in MHz. -/
  | freq
  /-- To be sent at once. -/
  | imme
  /-- The polarity is inverted. -/
  | ipol
  /-- The signal-to-noise ratio in dB. -/
  | lsnr
  /-- The modulation. -/
  | modu
  /-- No checksum. -/
  | ncrc
  /-- The output power in dBm. -/
  | powe
  /-- The size of the preamble. -/
  | prea
  /-- The radio chain of the concentrator. -/
  | rfch
  /-- The signal strength in dBm. -/
  | rssi
  /-- The size of the payload. -/
  | size
  /-- The status of the checksum. -/
  | stat
  /-- The time of reception. -/
  | time
  /-- The time of the concentrator in microseconds. -/
  | tmst
  deriving DecidableEq

namespace Key

/-- All keys, in the order in which fields are written. -/
def all : List Key :=
  [dutyRx1, dutyRx2, chan, codr, datr, fdev, freq, imme, ipol, lsnr, modu, ncrc, powe, prea, rfch,
    rssi, size, stat, time, tmst]

/-- The name of a key. -/
def name : Key → String
  | dutyRx1 => "duty_rx1"
  | dutyRx2 => "duty_rx2"
  | chan => "chan"
  | codr => "codr"
  | datr => "datr"
  | fdev => "fdev"
  | freq => "freq"
  | imme => "imme"
  | ipol => "ipol"
  | lsnr => "lsnr"
  | modu => "modu"
  | ncrc => "ncrc"
  | powe => "powe"
  | prea => "prea"
  | rfch => "rfch"
  | rssi => "rssi"
  | size => "size"
  | stat => "stat"
  | time => "time"
  | tmst => "tmst"

/-- The key with a given name. -/
def ofName? (name : String) : Option Key := all.find? (·.name = name)

/-- The kind of the values of a field. -/
def kind : Key → Kind
  | dutyRx1 | dutyRx2 | chan | fdev | powe | prea | rfch | size | tmst => .unsigned
  | rssi | stat => .signed
  | codr | datr | modu | time => .text
  | imme | ipol | ncrc => .flag
  | freq | lsnr => .real

/-- The values of a field. -/
abbrev Value (k : Key) : Type := k.kind.Value

theorem mem_all (k : Key) : k ∈ all := by
  cases k <;> decide

theorem ofName?_name (k : Key) : ofName? k.name = some k := by
  cases k <;> decide

end Key

end Metadata

/-! ### Fields -/

/-- What is known about a frame. -/
structure Metadata where
  /-- The duty cycle of the first receive window. -/
  dutyRx1 : Option UInt32 := none
  /-- The duty cycle of the second receive window. -/
  dutyRx2 : Option UInt32 := none
  /-- The channel of the concentrator. -/
  chan : Option UInt32 := none
  /-- The coding rate. -/
  codr : Option String := none
  /-- The data rate. -/
  datr : Option String := none
  /-- The frequency deviation in Hz. -/
  fdev : Option UInt32 := none
  /-- The frequency in MHz. -/
  freq : Option Binary64 := none
  /-- To be sent at once. -/
  imme : Option Bool := none
  /-- The polarity is inverted. -/
  ipol : Option Bool := none
  /-- The signal-to-noise ratio in dB. -/
  lsnr : Option Binary64 := none
  /-- The modulation. -/
  modu : Option String := none
  /-- No checksum. -/
  ncrc : Option Bool := none
  /-- The output power in dBm. -/
  powe : Option UInt32 := none
  /-- The size of the preamble. -/
  prea : Option UInt32 := none
  /-- The radio chain of the concentrator. -/
  rfch : Option UInt32 := none
  /-- The signal strength in dBm. -/
  rssi : Option Int32 := none
  /-- The size of the payload. -/
  size : Option UInt32 := none
  /-- The status of the checksum. -/
  stat : Option Int32 := none
  /-- The time of reception. -/
  time : Option String := none
  /-- The time of the concentrator in microseconds. -/
  tmst : Option UInt32 := none
  deriving DecidableEq

namespace Metadata

/-- Metadata without any field. -/
def empty : Metadata := {}

/-- The value of a field. -/
def get (m : Metadata) : (k : Key) → Option k.Value
  | .dutyRx1 => m.dutyRx1
  | .dutyRx2 => m.dutyRx2
  | .chan => m.chan
  | .codr => m.codr
  | .datr => m.datr
  | .fdev => m.fdev
  | .freq => m.freq
  | .imme => m.imme
  | .ipol => m.ipol
  | .lsnr => m.lsnr
  | .modu => m.modu
  | .ncrc => m.ncrc
  | .powe => m.powe
  | .prea => m.prea
  | .rfch => m.rfch
  | .rssi => m.rssi
  | .size => m.size
  | .stat => m.stat
  | .time => m.time
  | .tmst => m.tmst

/-- The metadata with another value of a field. -/
def set (m : Metadata) : (k : Key) → Option k.Value → Metadata
  | .dutyRx1, v => { m with dutyRx1 := v }
  | .dutyRx2, v => { m with dutyRx2 := v }
  | .chan, v => { m with chan := v }
  | .codr, v => { m with codr := v }
  | .datr, v => { m with datr := v }
  | .fdev, v => { m with fdev := v }
  | .freq, v => { m with freq := v }
  | .imme, v => { m with imme := v }
  | .ipol, v => { m with ipol := v }
  | .lsnr, v => { m with lsnr := v }
  | .modu, v => { m with modu := v }
  | .ncrc, v => { m with ncrc := v }
  | .powe, v => { m with powe := v }
  | .prea, v => { m with prea := v }
  | .rfch, v => { m with rfch := v }
  | .rssi, v => { m with rssi := v }
  | .size, v => { m with size := v }
  | .stat, v => { m with stat := v }
  | .time, v => { m with time := v }
  | .tmst, v => { m with tmst := v }

@[simp] theorem get_set (m : Metadata) (k : Key) (v : Option k.Value) : (m.set k v).get k = v := by
  cases k <;> rfl

theorem get_set_of_ne (m : Metadata) {j k : Key} (v : Option k.Value) (h : j ≠ k) :
    (m.set k v).get j = m.get j := by
  cases k <;> cases j <;> first | rfl | exact absurd rfl h

@[simp] theorem set_get (m : Metadata) (k : Key) : m.set k (m.get k) = m := by
  cases k <;> rfl

@[simp] theorem get_empty (k : Key) : empty.get k = none := by
  cases k <;> rfl

/-- Metadata are their fields. -/
theorem ext_get {m n : Metadata} (h : ∀ k, m.get k = n.get k) : m = n := by
  obtain ⟨⟩ := m
  obtain ⟨⟩ := n
  simp only [Metadata.mk.injEq]
  exact ⟨h .dutyRx1, h .dutyRx2, h .chan, h .codr, h .datr, h .fdev, h .freq, h .imme, h .ipol,
    h .lsnr, h .modu, h .ncrc, h .powe, h .prea, h .rfch, h .rssi, h .size, h .stat, h .time,
    h .tmst⟩

end Metadata

end LoraRelay
