import LoraRelay.Json.Number
import LoraRelay.Json.Text

/-!
# The tokens of a JSON text

A JSON text is cut into brackets, commas, colons, the three words, numbers and
quoted texts, with blanks between them. No two values stand side by side in JSON,
so where one token ends and the next begins is never in doubt.

A value that nobody wants is passed over (`skip`): its brackets must match and its
parts must be in order, but its numbers may be of any size and its texts need not be
texts. A stack of open brackets takes the place of recursion, so that nesting has no
limit.
-/

namespace LoraRelay.Json

/-- A token. -/
inductive Token where
  /-- An opening brace. -/
  | openBrace
  /-- A closing brace. -/
  | closeBrace
  /-- An opening bracket. -/
  | openBracket
  /-- A closing bracket. -/
  | closeBracket
  /-- A comma. -/
  | comma
  /-- A colon. -/
  | colon
  /-- The word for no value. -/
  | null
  /-- One of the words for truth values. -/
  | bool (value : Bool)
  /-- A number. -/
  | number (n : Number)
  /-- A quoted text, in parts. -/
  | text (parts : List TextPart)
  deriving DecidableEq

namespace Token

/-! ### Cutting into tokens -/

/-- A byte between tokens: space, tab, line feed or carriage return. -/
def isBlank (b : UInt8) : Bool := b == 0x20 || b == 0x09 || b == 0x0A || b == 0x0D

/-- A word whose first letter has been read. -/
def scanWord (letters : String) (t : Token) (rest : Bytes) : Option (Token × Bytes) :=
  if (ascii letters).isPrefixOf rest then some (t, rest.drop (ascii letters).length) else none

/-- The token that is one byte. -/
def ofMark? (b : UInt8) : Option Token :=
  if b = 0x7B then some openBrace
  else if b = 0x7D then some closeBrace
  else if b = 0x5B then some openBracket
  else if b = 0x5D then some closeBracket
  else if b = 0x2C then some comma
  else if b = 0x3A then some colon
  else none

/-- The word that starts with `b`, or otherwise the number. -/
def scanScalar (b : UInt8) (rest : Bytes) : Option (Token × Bytes) :=
  if b = 0x6E then scanWord "ull" null rest
  else if b = 0x74 then scanWord "rue" (bool true) rest
  else if b = 0x66 then scanWord "alse" (bool false) rest
  else (Number.scan (b :: rest)).map fun (n, rest) => (number n, rest)

/-- The token that starts with `b`, and the bytes after it. -/
def scan (b : UInt8) (rest : Bytes) : Option (Token × Bytes) :=
  match ofMark? b with
  | some t => some (t, rest)
  | none =>
    if b = quoteMark then (scanParts [] rest).map fun (ps, rest) => (text ps, rest)
    else scanScalar b rest

theorem length_of_scanWord {letters : String} {t t' : Token} {bytes rest : Bytes}
    (h : scanWord letters t bytes = some (t', rest)) : rest.length ≤ bytes.length := by
  unfold scanWord at h
  split at h
  · cases h
    simp
  · cases h

theorem length_of_scanScalar {b : UInt8} {bytes rest : Bytes} {t : Token}
    (h : scanScalar b bytes = some (t, rest)) : rest.length ≤ bytes.length := by
  unfold scanScalar at h
  split at h
  · exact length_of_scanWord h
  · split at h
    · exact length_of_scanWord h
    · split at h
      · exact length_of_scanWord h
      · simp only [Option.map_eq_some_iff, Prod.mk.injEq, Prod.exists] at h
        obtain ⟨n, r, h, _, rfl⟩ := h
        have := Number.length_of_scan h
        simp at this
        omega

theorem length_of_scan {b : UInt8} {bytes rest : Bytes} {t : Token}
    (h : scan b bytes = some (t, rest)) : rest.length ≤ bytes.length := by
  unfold scan at h
  split at h
  · cases h
    exact Nat.le_refl _
  · split at h
    · simp only [Option.map_eq_some_iff, Prod.mk.injEq, Prod.exists] at h
      obtain ⟨ps, r, h, _, rfl⟩ := h
      exact Nat.le_of_lt (length_of_scanParts h)
    · exact length_of_scanScalar h

/-- The tokens of a text, those of `done` having been read before in reverse order. -/
def scanAll (done : List Token) (bytes : Bytes) : Option (List Token) :=
  match bytes with
  | [] => some done.reverse
  | b :: rest =>
    if isBlank b then scanAll done rest
    else
      match _h : scan b rest with
      | none => none
      | some (t, rest') => scanAll (t :: done) rest'
termination_by bytes.length
decreasing_by
  · simp
  · have := length_of_scan _h
    simp
    omega

/-- The tokens of a text. -/
def ofBytes? (bytes : Bytes) : Option (List Token) := scanAll [] bytes

end Token

/-! ### Passing over a value -/

/-- What kind of bracket is open. -/
inductive Container where
  /-- A bracket, around elements. -/
  | array
  /-- A brace, around members. -/
  | object
  deriving DecidableEq

/-- What may come next. -/
inductive Expected where
  /-- A value. -/
  | value
  /-- A value or the end of an array. -/
  | firstElement
  /-- A key or the end of an object. -/
  | firstKey
  /-- A key. -/
  | key
  /-- The colon after a key. -/
  | colon
  /-- A comma or the end of what is open. -/
  | more
  deriving DecidableEq

/-- How far a value has been read: what is open, innermost first, and what may come. -/
structure Progress where
  /-- The open brackets. -/
  opened : List Container
  /-- What may come next. -/
  expected : Expected
  deriving DecidableEq

namespace Progress

/-- Nothing has been read. -/
def start : Progress := ⟨[], .value⟩

/-- Nothing is missing. -/
def finish : Progress := ⟨[], .more⟩

/-- After the start of a value. -/
def stepValue (opened : List Container) : Token → Option Progress
  | .openBracket => some ⟨.array :: opened, .firstElement⟩
  | .openBrace => some ⟨.object :: opened, .firstKey⟩
  | .null | .bool _ | .number _ | .text _ => some ⟨opened, .more⟩
  | _ => none

/-- After one more token. -/
def step : Progress → Token → Option Progress
  | ⟨opened, .value⟩, t => stepValue opened t
  | ⟨opened, .firstElement⟩, .closeBracket => some ⟨opened.tail, .more⟩
  | ⟨opened, .firstElement⟩, t => stepValue opened t
  | ⟨opened, .firstKey⟩, .closeBrace => some ⟨opened.tail, .more⟩
  | ⟨opened, .firstKey⟩, .text _ => some ⟨opened, .colon⟩
  | ⟨opened, .key⟩, .text _ => some ⟨opened, .colon⟩
  | ⟨opened, .colon⟩, .colon => some ⟨opened, .value⟩
  | ⟨.array :: opened, .more⟩, .comma => some ⟨.array :: opened, .value⟩
  | ⟨.array :: opened, .more⟩, .closeBracket => some ⟨opened, .more⟩
  | ⟨.object :: opened, .more⟩, .comma => some ⟨.object :: opened, .key⟩
  | ⟨.object :: opened, .more⟩, .closeBrace => some ⟨opened, .more⟩
  | _, _ => none

end Progress

/-- The tokens after the rest of a value. -/
def skipFrom (p : Progress) : List Token → Option (List Token)
  | [] => none
  | t :: ts =>
    match p.step t with
    | none => none
    | some q => if q = .finish then some ts else skipFrom q ts

/-- The tokens after a value. -/
def skip (ts : List Token) : Option (List Token) := skipFrom .start ts

theorem length_of_skipFrom {p : Progress} {ts rest : List Token}
    (h : skipFrom p ts = some rest) : rest.length < ts.length := by
  induction ts generalizing p with
  | nil => cases h
  | cons t ts ih =>
    unfold skipFrom at h
    split at h
    · cases h
    · split at h
      · cases h
        simp
      · have := ih h
        simp
        omega

theorem length_of_skip {ts rest : List Token} (h : skip ts = some rest) :
    rest.length < ts.length := length_of_skipFrom h

end LoraRelay.Json
