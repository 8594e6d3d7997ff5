import LoraRelay.Json.Token
import LoraRelay.Metadata.Basic

/-!
# Metadata from JSON

Metadata are read from an object, whose fields may stand in any order, or from an
array of all twenty values in the order of the keys. In an object other keys are
passed over with their values, and no key of a field may occur twice. The word
`null` leaves a field unset.

## The model

Values of fields are single tokens. Members are taken off the front of the tokens
one by one, together with the keys that have been seen.
-/

namespace LoraRelay.Metadata

open Json (Token)

/-- The number as a natural number of 32 bits. -/
def uint32OfInt? (i : Int) : Option UInt32 :=
  if 0 ≤ i ∧ i < 4294967296 then some (UInt32.ofNat i.toNat) else none

/-- The number as an integer of 32 bits. -/
def int32OfInt? (i : Int) : Option Int32 :=
  if -2147483648 ≤ i ∧ i < 2147483648 then some (Int32.ofInt i) else none

/-- The value of a field that a token stands for. -/
def Kind.ofToken? : (k : Kind) → Token → Option k.Value
  | unsigned, .number n => n.toInt?.bind uint32OfInt?
  | signed, .number n => n.toInt?.bind int32OfInt?
  | text, .text parts => Json.ofParts? parts
  | flag, .bool b => some b
  | real, .number n => n.toBinary64?
  | _, _ => none

/-- The metadata with the field `k` as a token says. -/
def setToken? (m : Metadata) (k : Key) : Token → Option Metadata
  | .null => some (m.set k none)
  | t => (k.kind.ofToken? t).map fun v => m.set k (some v)

/-! ### Objects -/

/-- How far an object has been read. -/
structure Partial where
  /-- The keys of fields that have been seen. -/
  seen : List Key
  /-- The fields read so far. -/
  fields : Metadata

/-- The value of a member with a given name, and the tokens after it. -/
def readMember (p : Partial) (name : String) (tokens : List Token) :
    Option (Partial × List Token) :=
  match Key.ofName? name with
  | none => (Json.skip tokens).map (p, ·)
  | some k =>
    if k ∈ p.seen then none
    else
      match tokens with
      | [] => none
      | t :: rest => (p.fields.setToken? k t).map fun m => (⟨k :: p.seen, m⟩, rest)

theorem length_of_readMember {p q : Partial} {name : String} {tokens rest : List Token}
    (h : readMember p name tokens = some (q, rest)) : rest.length < tokens.length := by
  unfold readMember at h
  split at h
  · simp only [Option.map_eq_some_iff, Prod.mk.injEq] at h
    obtain ⟨r, h, _, rfl⟩ := h
    exact Json.length_of_skip h
  · split at h
    · cases h
    · split at h
      · cases h
      · simp only [Option.map_eq_some_iff, Prod.mk.injEq] at h
        obtain ⟨_, _, _, rfl⟩ := h
        simp

/-- The fields of an object from a key on, up to its end, which must be the end of
the tokens. -/
def readMembers (p : Partial) (tokens : List Token) : Option Metadata :=
  match tokens with
  | .text parts :: .colon :: rest =>
    match Json.ofParts? parts with
    | none => none
    | some name =>
      match _h : readMember p name rest with
      | some (q, .comma :: rest') => readMembers q rest'
      | some (q, [.closeBrace]) => some q.fields
      | _ => none
  | _ => none
termination_by tokens.length
decreasing_by
  have := length_of_readMember _h
  simp at this ⊢
  omega

/-! ### Arrays -/

/-- The fields of an array that has a value for each of the keys, up to its end,
which must be the end of the tokens. -/
def readElements (m : Metadata) : List Key → List Token → Option Metadata
  | [k], [t, .closeBracket] => m.setToken? k t
  | k :: ks, t :: .comma :: rest => (m.setToken? k t).bind (readElements · ks rest)
  | _, _ => none

/-! ### Texts -/

/-- The metadata that tokens stand for. -/
def ofTokens? : List Token → Option Metadata
  | [.openBrace, .closeBrace] => some empty
  | .openBrace :: rest => readMembers ⟨[], empty⟩ rest
  | .openBracket :: rest => readElements empty Key.all rest
  | _ => none

/-- The metadata that a text in JSON stands for. -/
def read? (bytes : Bytes) : Option Metadata := (Token.ofBytes? bytes).bind ofTokens?

end LoraRelay.Metadata
