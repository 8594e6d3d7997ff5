import LoraRelay.Json.Number
import LoraRelay.Json.Text
import LoraRelay.Metadata.Basic

/-!
# Metadata as JSON

Metadata are written as an object with the fields that are set, in the order of the
keys and without blanks.
-/

namespace LoraRelay.Metadata

/-- A value of a field as it is written. -/
def Kind.write : (k : Kind) → k.Value → Bytes
  | unsigned, n => Json.writeInt n.toNat
  | signed, i => Json.writeInt i.toInt
  | text, s => Json.quote s
  | flag, b => ascii (if b then "true" else "false")
  | real, x => Json.writeBinary64 x

/-- A field with its key. -/
def writeField (k : Key) (v : k.Value) : Bytes := Json.quote k.name ++ 0x3A :: k.kind.write v

/-- The fields that are set, in order. -/
def writeFields (m : Metadata) : List Bytes :=
  Key.all.filterMap fun k => (m.get k).map (writeField k)

/-- The object of the fields that are set. A number that is not finite stands as
`null` in it. -/
def write (m : Metadata) : Bytes := 0x7B :: [0x2C].intercalate m.writeFields ++ [0x7D]

/-- The first key whose value is a number but not a finite one. -/
def notFinite? (m : Metadata) : Option Key :=
  if m.freq.any (¬ ·.IsFinite) then some .freq
  else if m.lsnr.any (¬ ·.IsFinite) then some .lsnr
  else none

/-- The metadata as a text for people. -/
def text (m : Metadata) : String :=
  "Metadata " ++ (ofUtf8? m.write).getD "\x7b?\x7d"

end LoraRelay.Metadata
