import LoraRelay.Bytes

/-!
# Computations by position

A program with its bytes in memory takes them by position: it looks at the byte with a
number, cuts a string at a place, copies bytes into a place of fixed size. Nothing of this
can fail in a good way, since a position outside of the string stops the program. The
readers and writers of this library match on lists and know no positions; here are the
operations that do, so that the same readers and writers can be spelled with them.

## The model

A computation by position comes to a result, to an error, or goes outside (`Positional`).
It is safe and right at once if it is `inside x`, where `x` is what the computation
without positions comes to.
-/

namespace LoraRelay

/-- A computation by position: `none` if it has gone outside, and otherwise a result or an
error. -/
abbrev Positional (ε : Type) : Type → Type := ExceptT ε Option

namespace Positional

variable {ε ε' α β : Type}

/-- A computation that stays inside and comes to `x`. -/
def inside (x : Except ε α) : Positional ε α := ExceptT.mk (some x)

/-- A computation that has gone outside. -/
def outside : Positional ε α := ExceptT.mk none

/-! ### Steps -/

@[simp] theorem pure_eq_inside (a : α) : (pure a : Positional ε α) = inside (.ok a) := rfl

@[simp] theorem throw_eq_inside (e : ε) : (throw e : Positional ε α) = inside (.error e) := rfl

@[simp] theorem inside_ok_bind (a : α) (f : α → Positional ε β) : inside (.ok a) >>= f = f a := rfl

@[simp] theorem adapt_inside (f : ε → ε') (x : Except ε α) :
    ExceptT.adapt f (inside x) = inside (x.mapError f) := rfl

@[simp] theorem map_inside (f : α → β) (x : Except ε α) : f <$> inside x = inside (x.map f) := by
  cases x <;> rfl

theorem bind_eq_inside_ok_iff {x : Positional ε α} {f : α → Positional ε β} {b : β} :
    x >>= f = inside (.ok b) ↔ ∃ a, x = inside (.ok a) ∧ f a = inside (.ok b) := by
  constructor
  · intro h
    rcases x with _ | _ | a
    · cases h
    · cases h
    · exact ⟨a, rfl, h⟩
  · rintro ⟨a, rfl, h⟩
    exact h

/-! ### Positions -/

/-- The element with a number. -/
def look (xs : List α) (i : Nat) : Positional ε α :=
  match xs[i]? with
  | some x => inside (.ok x)
  | none => outside

/-- The bytes at `n` positions from one on, looked up one by one. -/
def looks (bytes : Bytes) (i : Nat) : (n : Nat) → Positional ε (Octets n)
  | 0 => return ⟨[], rfl⟩
  | n + 1 => do
    let first ← look bytes i
    let others ← looks bytes (i + 1) n
    return ⟨first :: others.toList, by simp⟩

/-- The bytes from one position up to another. -/
def slice (bytes : Bytes) (i j : Nat) : Positional ε Bytes :=
  if i ≤ j ∧ j ≤ bytes.length then inside (.ok ((bytes.take j).drop i)) else outside

/-- The bytes before a position and those after it. -/
def cut (bytes : Bytes) (i : Nat) : Positional ε (Bytes × Bytes) :=
  if i ≤ bytes.length then inside (.ok (bytes.take i, bytes.drop i)) else outside

/-- The bytes before the last `n`, and these. -/
def cutBack (bytes : Bytes) (n : Nat) : Positional ε (Bytes × Bytes) :=
  if n ≤ bytes.length then
    inside (.ok (bytes.take (bytes.length - n), bytes.drop (bytes.length - n)))
  else outside

/-- The bytes as a string of fixed length, which they must have. -/
def copy (n : Nat) (bytes : Bytes) : Positional ε (Octets n) :=
  match Octets.ofList? n bytes with
  | some a => inside (.ok a)
  | none => outside

/-- The buffer with another byte at a position. -/
def poke (buffer : Bytes) (i : Nat) (byte : UInt8) : Positional ε Bytes :=
  if i < buffer.length then inside (.ok (buffer.set i byte)) else outside

/-- The buffer with other bytes from one position up to another, of which there must be as
many. -/
def put (buffer : Bytes) (i j : Nat) (bytes : Bytes) : Positional ε Bytes :=
  if i ≤ j ∧ j ≤ buffer.length ∧ bytes.length = j - i then
    inside (.ok (buffer.take i ++ bytes ++ buffer.drop j))
  else outside

/-- The bytes in a buffer with room for `n`. -/
def collect (n : Nat) (bytes : Bytes) : Positional ε Bytes :=
  if bytes.length ≤ n then inside (.ok bytes) else outside

/-! ### What is cut off -/

theorem length_of_slice {bytes part : Bytes} {i j : Nat}
    (h : (slice bytes i j : Positional ε Bytes) = inside (.ok part)) : part.length = j - i := by
  unfold slice at h
  split at h
  · rename_i hij
    cases h
    rw [List.length_drop, List.length_take_of_le hij.2]
  · cases h

theorem append_of_cut {bytes front rest : Bytes} {i : Nat}
    (h : (cut bytes i : Positional ε (Bytes × Bytes)) = inside (.ok (front, rest))) :
    front ++ rest = bytes := by
  unfold cut at h
  split at h
  · cases h
    exact List.take_append_drop i bytes
  · cases h

end Positional

end LoraRelay
