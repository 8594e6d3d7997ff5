import LoraRelay.Device

/-!
# The block cipher

AES with a 128-bit key, the direction of encryption only. A block is four
columns of four bytes. Bytes are also the elements of the field of 256 elements,
polynomials over the two-element field modulo `x⁸ + x⁴ + x³ + x + 1`: the
substitution of bytes and the mixing of columns are computed there.
-/

namespace LoraRelay.Aes

/-! ### The field -/

/-- The product with `x`. -/
def double (a : UInt8) : UInt8 := if a < 0x80 then a <<< 1 else (a <<< 1) ^^^ 0x1B

/-- The product of `a` with the low `k` bits of `b`. -/
def timesLow : Nat → UInt8 → UInt8 → UInt8
  | 0, _, _ => 0
  | k + 1, a, b => (if b % 2 = 1 then a else 0) ^^^ timesLow k (double a) (b / 2)

/-- The product. -/
def times (a b : UInt8) : UInt8 := timesLow 8 a b

/-- The product of the powers `a²`, `a⁴`, … up to `k` of them. -/
def evenPowers : Nat → UInt8 → UInt8
  | 0, _ => 1
  | k + 1, a => times (times a a) (evenPowers k (times a a))

/-- The inverse, `a²⁵⁴`, which is zero for zero. -/
def inverse (a : UInt8) : UInt8 := evenPowers 7 a

/-- The bits of a byte moved `k` places to the left, those that fall out coming
back on the right. -/
def rotate (k a : UInt8) : UInt8 := (a <<< k) ||| (a >>> (8 - k))

/-- The byte that replaces `a`: its inverse under an affine map of the bits. -/
def substitute (a : UInt8) : UInt8 :=
  let b := inverse a
  b ^^^ rotate 1 b ^^^ rotate 2 b ^^^ rotate 3 b ^^^ rotate 4 b ^^^ 0x63

/-! ### Columns and blocks -/

/-- Four bytes of a block. -/
structure Column where
  /-- The byte of the first row. -/
  a : UInt8
  /-- The byte of the second row. -/
  b : UInt8
  /-- The byte of the third row. -/
  c : UInt8
  /-- The byte of the fourth row. -/
  d : UInt8
  deriving DecidableEq

namespace Column

/-- The first four bytes of a string, zeros standing for missing ones. -/
def ofBytes (bytes : Bytes) : Column :=
  ⟨bytes.getD 0 0, bytes.getD 1 0, bytes.getD 2 0, bytes.getD 3 0⟩

/-- The bytes. -/
def toList (v : Column) : Bytes := [v.a, v.b, v.c, v.d]

/-- The sum, byte by byte. -/
def add (v w : Column) : Column := ⟨v.a ^^^ w.a, v.b ^^^ w.b, v.c ^^^ w.c, v.d ^^^ w.d⟩

/-- Every byte replaced. -/
def substitute (v : Column) : Column :=
  ⟨Aes.substitute v.a, Aes.substitute v.b, Aes.substitute v.c, Aes.substitute v.d⟩

/-- The bytes moved up by one row. -/
def rotate (v : Column) : Column := ⟨v.b, v.c, v.d, v.a⟩

/-- One row of a mixed column: `2a + 3b + c + d`. -/
def mixRow (v : Column) : UInt8 := double v.a ^^^ (double v.b ^^^ v.b) ^^^ v.c ^^^ v.d

/-- The column mixed. -/
def mix (v : Column) : Column :=
  ⟨v.mixRow, v.rotate.mixRow, v.rotate.rotate.mixRow, v.rotate.rotate.rotate.mixRow⟩

end Column

/-- Sixteen bytes in four columns. -/
structure Block where
  /-- The first column. -/
  v : Column
  /-- The second column. -/
  w : Column
  /-- The third column. -/
  x : Column
  /-- The fourth column. -/
  y : Column
  deriving DecidableEq

namespace Block

/-- The first sixteen bytes of a string, zeros standing for missing ones. -/
def ofBytes (bytes : Bytes) : Block :=
  ⟨.ofBytes bytes, .ofBytes (bytes.drop 4), .ofBytes (bytes.drop 8), .ofBytes (bytes.drop 12)⟩

/-- The bytes, column by column. -/
def toList (s : Block) : Bytes := s.v.toList ++ s.w.toList ++ s.x.toList ++ s.y.toList

/-- The sum, byte by byte. -/
def add (s t : Block) : Block := ⟨s.v.add t.v, s.w.add t.w, s.x.add t.x, s.y.add t.y⟩

/-- Every byte replaced. -/
def substitute (s : Block) : Block :=
  ⟨s.v.substitute, s.w.substitute, s.x.substitute, s.y.substitute⟩

/-- Row `k` moved `k` columns to the left. -/
def shiftRows (s : Block) : Block :=
  ⟨⟨s.v.a, s.w.b, s.x.c, s.y.d⟩, ⟨s.w.a, s.x.b, s.y.c, s.v.d⟩,
    ⟨s.x.a, s.y.b, s.v.c, s.w.d⟩, ⟨s.y.a, s.v.b, s.w.c, s.x.d⟩⟩

/-- Every column mixed. -/
def mix (s : Block) : Block := ⟨s.v.mix, s.w.mix, s.x.mix, s.y.mix⟩

/-- The round key after `k`, made with the round constant `r`. -/
def nextKey (r : UInt8) (k : Block) : Block :=
  let v := (k.v.add k.y.rotate.substitute).add ⟨r, 0, 0, 0⟩
  let w := k.w.add v
  let x := k.x.add w
  ⟨v, w, x, k.y.add x⟩

end Block

/-! ### The cipher -/

/-- The last `n + 1` rounds, the previous round key being `k` and the next round
constant `r`. The very last round mixes no columns. -/
def rounds : Nat → UInt8 → Block → Block → Block
  | 0, r, k, s => s.substitute.shiftRows.add (k.nextKey r)
  | n + 1, r, k, s =>
    rounds n (double r) (k.nextKey r) (s.substitute.shiftRows.mix.add (k.nextKey r))

/-- The block encrypted with a key, in ten rounds. -/
def encrypt (key : Key) (s : Block) : Block :=
  let k := Block.ofBytes key.bytes.toList
  rounds 9 1 k (s.add k)

end LoraRelay.Aes
