import LoraRelay.Proofs.Command.Domain
import LoraRelay.Proofs.Command.Reserved
import Mathlib.Data.List.Forall2

/-!
# Commands that can be read

A reader of commands goes by five tables: the identifiers, the lengths of bodies, the
directions, the ranges of fields and the layouts of bodies. A writer goes by the same. If one
of them did not fit the others, something could be written that is not read back, or read
that is not written.

## What is proved

* `exists_decodeAll_iff` — the commands that some bytes are read as are those that can be
  sent.
* `forall_encode_iff_exists_decodeAll` — these are the commands that travel in the direction
  read and that the writer lets through one by one. What it writes, put one after the other,
  is read as them and takes as many bytes as everything that is.
-/

namespace LoraRelay.Command

variable {d : Direction} {c : Command} {cs : List Command} {bytes : Bytes}

/-! ### One command -/

theorem encode_eq_ok_iff : c.encode = .ok bytes ↔ c.InRange ∧ bytes = c.toBytes := by
  unfold encode
  split
  · rename_i hr
    simp [hr, toBytes, eq_comm]
  · rename_i hr
    simp [hr]

/-- A command can be sent in direction `d` exactly if it travels there and is written. -/
theorem sendable_iff_exists_encode :
    c.Sendable d ↔ c.direction = d ∧ ∃ bytes, c.encode = .ok bytes := by
  simp only [encode_eq_ok_iff, Sendable, exists_and_left, exists_eq, and_true]

theorem bodyLength_le (c : Command) : c.bodyLength ≤ 5 := by
  unfold bodyLength
  cases c.id <;> cases c.direction <;> decide

/-! ### Sequences -/

theorem decodeAll_flatMap_toBytes (h : ∀ c ∈ cs, c.Sendable d) :
    decodeAll d (cs.flatMap toBytes) = .ok cs :=
  decodeAll_of_encodeAll (encodeAll_eq_ok_iff.2 ⟨h, rfl⟩)

/-- Commands that were read can be sent, and their bytes differ from those that were read in
reserved bits only. -/
theorem sendable_of_decodeAll (h : decodeAll d bytes = .ok cs) :
    (∀ c ∈ cs, c.Sendable d) ∧ cs.flatMap toBytes = clear (reserved d bytes) bytes := by
  obtain ⟨hs, hb⟩ := encodeAll_eq_ok_iff.1 (encodeAll_of_decodeAll h)
  exact ⟨hs, hb.symm⟩

/-- **The range of the reader is the domain of the writer**: there are bytes that are read as
certain commands exactly if all of these can be sent. -/
theorem exists_decodeAll_iff :
    (∃ bytes, decodeAll d bytes = .ok cs) ↔ ∀ c ∈ cs, c.Sendable d := by
  constructor
  · rintro ⟨bytes, h⟩
    exact (sendable_of_decodeAll h).1
  · intro h
    exact ⟨_, decodeAll_flatMap_toBytes h⟩

theorem length_eq_of_decodeAll (h : decodeAll d bytes = .ok cs) :
    bytes.length = (cs.flatMap toBytes).length := by
  rw [(sendable_of_decodeAll h).2, length_clear (length_reserved d bytes)]

/-- **What can be written is what can be read**: commands travel in direction `d` and are
written one by one exactly if some bytes are read as them in that direction. Each is then
written in its body and one byte more, six bytes at most; these one after the other are read
as the commands again, and are as many as any bytes that are. -/
theorem forall_encode_iff_exists_decodeAll (d : Direction) (cs : List Command) :
    ((∀ c ∈ cs, c.direction = d ∧ ∃ bytes, c.encode = .ok bytes) ↔
      ∃ bytes, decodeAll d bytes = .ok cs) ∧
    ∀ bytes, decodeAll d bytes = .ok cs → ∃ parts,
      List.Forall₂ (fun c part =>
        c.encode = .ok part ∧ part.length = 1 + c.bodyLength ∧ part.length ≤ 6) cs parts ∧
      decodeAll d parts.flatten = .ok cs ∧ parts.flatten.length = bytes.length := by
  constructor
  · rw [exists_decodeAll_iff]
    exact forall₂_congr fun c _ => sendable_iff_exists_encode.symm
  · intro bytes h
    obtain ⟨hs, -⟩ := sendable_of_decodeAll h
    refine ⟨cs.map toBytes, ?_, ?_, ?_⟩
    · rw [List.forall₂_map_right_iff, List.forall₂_same]
      intro c hc
      have hl := c.bodyLength_le
      exact ⟨encode_eq_ok_iff.2 ⟨(hs c hc).2, rfl⟩, length_toBytes c, by rw [length_toBytes]; omega⟩
    · rw [← List.flatMap_def]
      exact decodeAll_flatMap_toBytes hs
    · rw [← List.flatMap_def, length_eq_of_decodeAll h]

/-- Answers with every reserved bit set, and the smallest margin. -/
theorem forall_encode_iff_exists_decodeAll_uplink :
    let bytes : Bytes := [0x03, 0xFF, 0x06, 0x64, 0xE0, 0x02]
    let cs := [linkAdrAns true true true, devStatusAns 100 (-32), linkCheckReq]
    decodeAll .up bytes = .ok cs ∧ ∃ parts,
      List.Forall₂ (fun c part =>
        c.encode = .ok part ∧ part.length = 1 + c.bodyLength ∧ part.length ≤ 6) cs parts ∧
      decodeAll .up parts.flatten = .ok cs ∧ parts.flatten.length = bytes.length := by
  intro bytes cs
  have h : decodeAll .up bytes = .ok cs := by cbv
  exact ⟨h, (forall_encode_iff_exists_decodeAll .up cs).2 bytes h⟩

end LoraRelay.Command
