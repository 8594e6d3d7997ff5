import LoraRelay.Aes

/-!
# The cipher-based authentication code

AES-CMAC: a message is cut into blocks, each is added to what came before and the
sum encrypted. The last block is masked with one of two multiples of the encrypted
zero block, which tell a full last block from one that had to be filled up.
-/

namespace LoraRelay.Cmac

open Aes

/-- A block multiplied by `x` in the field of 2¹²⁸ elements. -/
def double (s : Block) : Block :=
  let bytes := s.toList
  let shifted := Block.ofBytes
    (List.zipWith (fun (b next : UInt8) => (b <<< 1) ||| (next >>> 7)) bytes (bytes.drop 1 ++ [0]))
  if s.v.a < 0x80 then shifted else shifted.add (.ofBytes (List.replicate 15 0 ++ [0x87]))

/-- The mask of a last block that is full. -/
def fullMask (key : Key) : Block := double (encrypt key (.ofBytes []))

/-- The last block made ready: a full one is masked, a shorter one is first closed
by a one bit and zeros and masked otherwise. -/
def close (key : Key) (last : Bytes) : Block :=
  if last.length = 16 then (Block.ofBytes last).add (fullMask key)
  else (Block.ofBytes (last ++ [0x80])).add (double (fullMask key))

/-- The code of a message that follows blocks already taken into `s`. -/
def absorb (key : Key) (s : Block) (message : Bytes) : Block :=
  if message.length ≤ 16 then encrypt key (s.add (close key message))
  else absorb key (encrypt key (s.add (.ofBytes message))) (message.drop 16)
termination_by message.length
decreasing_by simp; omega

/-- The code of a message, sixteen bytes. -/
def code (key : Key) (message : Bytes) : Block := absorb key (.ofBytes []) message

end LoraRelay.Cmac
