import LoraRelay.Frame.Command.Codec
import LoraRelay.Proofs.Outcome

/-!
# Sequences of commands

Commands follow each other without separators. `Layout d cs bytes` says, without
telling how it is found out, that `bytes` are the commands `cs` of a frame that
travels in direction `d`: every command is its identifier and a body that is read as
that command, with anything in its reserved bits.

## What is proved

* `decodeAll_eq_ok_iff` — the reader of sequences finds exactly the layouts.
* `decodeAll_of_encodeAll` — commands that are written are read back.
* `encodeWithin_eq_ok_iff` — a writer with limited room writes what one without
  limits does, if that fits.
-/

namespace LoraRelay.Command

/-- The bytes are these commands in direction `d`, one after the other. -/
inductive Layout (d : Direction) : List Command → Bytes → Prop where
  /-- No bytes are no commands. -/
  | nil : Layout d [] []
  /-- An identifier and a body, and more commands. -/
  | cons {id : CommandId} {body bytes : Bytes} {c : Command} {cs : List Command} :
      ofBody? id d body = some c → Layout d cs bytes →
      Layout d (c :: cs) (id.number :: (body ++ bytes))

/-! ### Reading -/

theorem length_of_ofBody? {id : CommandId} {d : Direction} {body : Bytes} {c : Command}
    (h : ofBody? id d body = some c) : body.length = id.bodyLength d := by
  rw [← isSome_ofBody?_iff, h]
  rfl

theorem exists_ofBody?_of_length {id : CommandId} {d : Direction} {body : Bytes}
    (h : body.length = id.bodyLength d) : ∃ c, ofBody? id d body = some c :=
  Option.isSome_iff_exists.1 (isSome_ofBody?_iff.2 h)

theorem ofBody?_take_of_lt {id : CommandId} {d : Direction} {bytes : Bytes}
    (h : bytes.length < id.bodyLength d) : ofBody? id d (bytes.take (id.bodyLength d)) = none := by
  rw [← Option.not_isSome_iff_eq_none, isSome_ofBody?_iff, List.length_take]
  omega

theorem decodeOne_eq_ok_iff {d : Direction} {number : UInt8} {bytes rest : Bytes} {c : Command} :
    decodeOne d number bytes = .ok (c, rest) ↔
      ∃ id body, number = id.number ∧ bytes = body ++ rest ∧ ofBody? id d body = some c := by
  constructor
  · intro h
    unfold decodeOne at h
    split at h
    · cases h
    · rename_i id hid
      split at h
      · cases h
      · rename_i hc
        cases h
        exact ⟨id, _, CommandId.ofNumber?_eq_some_iff.1 hid, (List.take_append_drop ..).symm, hc⟩
  · rintro ⟨id, body, rfl, rfl, hc⟩
    have hl := length_of_ofBody? hc
    simp [decodeOne, ← hl, hc]

/-- The first command and the others are read independently. -/
theorem decodeAll_cons_eq_ok_iff {d : Direction} {number : UInt8} {bytes : Bytes}
    {cs : List Command} :
    decodeAll d (number :: bytes) = .ok cs ↔
      ∃ c rest cs', decodeOne d number bytes = .ok (c, rest) ∧ decodeAll d rest = .ok cs' ∧
        cs = c :: cs' := by
  cases hone : decodeOne d number bytes with
  | error e =>
    rw [decodeAll_cons_of_error hone]
    refine iff_of_false nofun ?_
    rintro ⟨_, _, _, ⟨⟩, -⟩
  | ok first =>
    obtain ⟨c, rest⟩ := first
    rw [decodeAll_cons_of_ok hone, map_eq_ok_iff]
    constructor
    · rintro ⟨cs', hcs, rfl⟩
      exact ⟨c, rest, cs', rfl, hcs, rfl⟩
    · rintro ⟨_, _, cs', ⟨⟩, hcs, rfl⟩
      exact ⟨cs', hcs, rfl⟩

/-- **The reader of sequences finds the layouts**, all of them and nothing else. -/
theorem decodeAll_eq_ok_iff {d : Direction} {bytes : Bytes} {cs : List Command} :
    decodeAll d bytes = .ok cs ↔ Layout d cs bytes := by
  constructor
  · -- on the length, since a command takes several bytes at once
    induction hn : bytes.length using Nat.strongRecOn generalizing bytes cs with
    | ind n ih =>
      intro h
      cases bytes with
      | nil =>
        rw [decodeAll_nil] at h
        cases h
        exact .nil
      | cons number bytes =>
        obtain ⟨c, rest, cs', hc, hcs, rfl⟩ := decodeAll_cons_eq_ok_iff.1 h
        obtain ⟨id, body, rfl, rfl, hb⟩ := decodeOne_eq_ok_iff.1 hc
        have hlt : rest.length < n := by
          rw [← hn]
          simp only [List.length_cons, List.length_append]
          omega
        exact .cons hb (ih _ hlt rfl hcs)
  · intro h
    induction h with
    | nil => exact decodeAll_nil d
    | cons hb _ ih =>
      exact decodeAll_cons_eq_ok_iff.2
        ⟨_, _, _, decodeOne_eq_ok_iff.2 ⟨_, _, rfl, rfl, hb⟩, ih, rfl⟩

/-! ### Writing -/

theorem encodeAll_cons_eq_ok_iff {d : Direction} {c : Command} {cs : List Command} {bytes : Bytes} :
    encodeAll d (c :: cs) = .ok bytes ↔
      ∃ first rest, c.encodeFor d = .ok first ∧ encodeAll d cs = .ok rest ∧
        bytes = first ++ rest := by
  simp only [encodeAll, bind_eq_ok_iff, pure_eq_ok_iff]
  constructor
  · rintro ⟨first, hc, rest, hcs, rfl⟩
    exact ⟨first, rest, hc, hcs, rfl⟩
  · rintro ⟨first, rest, hc, hcs, rfl⟩
    exact ⟨first, hc, rest, hcs, rfl⟩

theorem decodeAll_of_encodeAll {d : Direction} {cs : List Command} {bytes : Bytes}
    (h : encodeAll d cs = .ok bytes) : decodeAll d bytes = .ok cs := by
  induction cs generalizing bytes with
  | nil =>
    cases h
    exact decodeAll_nil d
  | cons c cs ih =>
    obtain ⟨first, rest, hc, hcs, rfl⟩ := encodeAll_cons_eq_ok_iff.1 h
    rw [decodeAll_encodeFor hc, ih hcs]
    rfl

theorem encodeWithin_cons_eq_ok_iff {d : Direction} {room : Nat} {c : Command} {cs : List Command}
    {bytes : Bytes} :
    encodeWithin d room (c :: cs) = .ok bytes ↔
      ∃ first rest, c.encodeFor d = .ok first ∧ first.length ≤ room ∧
        encodeWithin d (room - first.length) cs = .ok rest ∧ bytes = first ++ rest := by
  simp only [encodeWithin, bind_eq_ok_iff]
  constructor
  · rintro ⟨first, hc, h⟩
    split at h
    · simp only [bind_eq_ok_iff, throw_eq_ok_iff, false_and, exists_false] at h
    · simp only [bind_eq_ok_iff, pure_eq_ok_iff] at h
      obtain ⟨rest, hr, rfl⟩ := h
      exact ⟨first, rest, hc, by omega, hr, rfl⟩
  · rintro ⟨first, rest, hc, hl, hr, rfl⟩
    refine ⟨first, hc, ?_⟩
    rw [if_neg (by omega), bind_eq_ok_iff]
    exact ⟨rest, hr, rfl⟩

/-- A writer with limited room writes what one without limits does, if that fits. -/
theorem encodeWithin_eq_ok_iff {d : Direction} {room : Nat} {cs : List Command} {bytes : Bytes} :
    encodeWithin d room cs = .ok bytes ↔ encodeAll d cs = .ok bytes ∧ bytes.length ≤ room := by
  induction cs generalizing room bytes with
  | nil =>
    constructor
    · intro h
      cases h
      exact ⟨rfl, Nat.zero_le _⟩
    · exact fun h => h.1
  | cons c cs ih =>
    rw [encodeWithin_cons_eq_ok_iff, encodeAll_cons_eq_ok_iff]
    constructor
    · rintro ⟨first, rest, hc, hl, hr, rfl⟩
      obtain ⟨hr, hlr⟩ := ih.1 hr
      exact ⟨⟨first, rest, hc, hr, rfl⟩, by rw [List.length_append]; omega⟩
    · rintro ⟨⟨first, rest, hc, hr, rfl⟩, hl⟩
      rw [List.length_append] at hl
      exact ⟨first, rest, hc, by omega, ih.2 ⟨hr, by omega⟩, rfl⟩

end LoraRelay.Command
