import LoraRelay.Packet.Application
import LoraRelay.Proofs.Field
import LoraRelay.Proofs.Metadata.RoundTrip
import Mathlib.Data.List.Forall2

/-!
# The codec of application packets

An application packet is two fields, and the second of them is again made of fields, one
for each entry of metadata. The list of entries has no count in front: it ends where its
bytes end, which must be at the end of an entry.

## The model

`IsEntries ms bytes` says without a reader what the bytes of a list are: fields one after
the other, whose contents are read as the entries. The reader of lists finds these and
nothing else. As the list stands in a field itself, there must be room for all entries
with their lengths in one field; each entry then fits its own.

## What is proved

* `decodeEntries_eq_ok_iff` and `encodeEntries_eq_ok_iff` — the lists of entries.
* `ApplicationPacket.round_trip_and_grammar` — when packets are made and written, that they
  are read back, and which bytes are packets.
-/

namespace LoraRelay.ApplicationPacket

/-! ### Reading the entries -/

/-- The bytes are fields one after the other, which are read as the entries. -/
def IsEntries (ms : List Metadata) (bytes : Bytes) : Prop :=
  ∃ texts : List Bytes, Piece.encodeAll (texts.map .field) = .ok bytes ∧
    List.Forall₂ (fun text m => Metadata.decode text = .ok m) texts ms

theorem isEntries_nil_iff {ms : List Metadata} : IsEntries ms [] ↔ ms = [] := by
  constructor
  · rintro ⟨_ | ⟨text, texts⟩, hb, ht⟩
    · exact List.forall₂_nil_left_iff.1 ht
    · obtain ⟨_, hr, -⟩ := Piece.encodeAll_field_cons_eq_ok_iff.1 hb
      cases hr
  · rintro rfl
    exact ⟨[], rfl, .nil⟩

theorem isEntries_iff_of_read {ms : List Metadata} {bytes text rest : Bytes}
    (h : Field.read bytes = .ok (text, rest)) :
    IsEntries ms bytes ↔
      ∃ m ms', Metadata.decode text = .ok m ∧ IsEntries ms' rest ∧ ms = m :: ms' := by
  constructor
  · rintro ⟨_ | ⟨text', texts⟩, hb, ht⟩
    · rw [Piece.encodeAll_nil_eq_ok_iff.1 hb] at h
      cases h
    · obtain ⟨rest', hr, hb⟩ := Piece.encodeAll_field_cons_eq_ok_iff.1 hb
      rw [h] at hr
      cases hr
      obtain ⟨m, ms', hm, hts, rfl⟩ := List.forall₂_cons_left_iff.1 ht
      exact ⟨m, ms', hm, ⟨texts, hb, hts⟩, rfl⟩
  · rintro ⟨m, ms', hm, ⟨texts, hb, ht⟩, rfl⟩
    exact ⟨text :: texts, Piece.encodeAll_field_cons_eq_ok_iff.2 ⟨rest, h, hb⟩, .cons hm ht⟩

theorem decodeEntries_nil : decodeEntries [] = .ok [] := by
  rw [decodeEntries]
  rfl

/-- The reader takes an entry off the front and goes on behind it. -/
theorem decodeEntries_of_read {bytes text rest : Bytes} (h : Field.read bytes = .ok (text, rest)) :
    decodeEntries bytes = do
      let m ← Metadata.decode text
      let ms ← decodeEntries rest
      return m :: ms := by
  rw [decodeEntries]
  split
  · rename_i h'
    rw [h] at h'
    cases h'
  · rename_i h'
    rw [h] at h'
    cases h'
  · rename_i h'
    rw [h] at h'
    cases h'
    rfl

theorem decodeEntries_eq_ok_iff_of_read {ms : List Metadata} {bytes text rest : Bytes}
    (h : Field.read bytes = .ok (text, rest)) :
    decodeEntries bytes = .ok ms ↔
      ∃ m ms', Metadata.decode text = .ok m ∧ decodeEntries rest = .ok ms' ∧ ms = m :: ms' := by
  simp only [decodeEntries_of_read h, bind_eq_ok_iff, pure_eq_ok_iff]
  constructor
  · rintro ⟨m, hm, ms', hms, rfl⟩
    exact ⟨m, ms', hm, hms, rfl⟩
  · rintro ⟨m, ms', hm, hms, rfl⟩
    exact ⟨m, hm, ms', hms, rfl⟩

/-- What is no field and not the end stops the reader. -/
theorem decodeEntries_of_read_error {bytes : Bytes} {e : FieldError} (hn : e ≠ .endOfStream)
    (h : Field.read bytes = .error e) : decodeEntries bytes = .error (.unreadableEntry e) := by
  rw [decodeEntries]
  split
  · rename_i h'
    rw [h] at h'
    exact absurd (Except.error.inj h') hn
  · rename_i h'
    rw [h] at h'
    cases h'
    rfl
  · rename_i h'
    rw [h] at h'
    cases h'

/-- **The reader of lists finds the entries**, all of them and nothing else. -/
theorem decodeEntries_eq_ok_iff {ms : List Metadata} {bytes : Bytes} :
    decodeEntries bytes = .ok ms ↔ IsEntries ms bytes := by
  induction hn : bytes.length using Nat.strongRecOn generalizing bytes ms with
  | ind n ih =>
    cases hr : Field.read bytes with
    | ok r =>
      obtain ⟨text, rest⟩ := r
      have hlt : rest.length < n := by
        have := Field.length_of_read hr
        omega
      rw [decodeEntries_eq_ok_iff_of_read hr, isEntries_iff_of_read hr]
      simp only [ih _ hlt rfl]
    | error e =>
      by_cases he : e = .endOfStream
      · subst he
        obtain rfl := Field.read_eq_endOfStream_iff.1 hr
        rw [decodeEntries_nil, isEntries_nil_iff, Except.ok.injEq, eq_comm]
      · rw [decodeEntries_of_read_error he hr]
        refine iff_of_false (by simp) ?_
        rintro ⟨_ | ⟨text, texts⟩, hb, -⟩
        · rw [Piece.encodeAll_nil_eq_ok_iff.1 hb] at hr
          exact he (Except.error.inj hr).symm
        · obtain ⟨_, hr', -⟩ := Piece.encodeAll_field_cons_eq_ok_iff.1 hb
          rw [hr] at hr'
          cases hr'

/-! ### Writing the entries -/

/-- The fields of the entries. -/
def entryFields (ms : List Metadata) : List Piece := ms.map fun m => .field m.write

/-- The bytes of the entries, if their lengths can be counted. -/
def entriesLayout (ms : List Metadata) : Bytes := (entryFields ms).flatMap Piece.layout

theorem entryPieces_eq_ok_iff {ms : List Metadata} {ps : List Piece} :
    entryPieces ms = .ok ps ↔ (∀ m ∈ ms, m.notFinite? = none) ∧ ps = entryFields ms := by
  induction ms generalizing ps with
  | nil => simp [entryPieces, entryFields, eq_comm]
  | cons m ms ih =>
    simp only [entryPieces, bind_eq_ok_iff, pure_eq_ok_iff, Metadata.encode_eq_ok_iff, ih,
      List.forall_mem_cons]
    constructor
    · rintro ⟨_, ⟨hm, rfl⟩, _, ⟨hms, rfl⟩, rfl⟩
      exact ⟨⟨hm, hms⟩, rfl⟩
    · rintro ⟨⟨hm, hms⟩, rfl⟩
      exact ⟨_, ⟨hm, rfl⟩, _, ⟨hms, rfl⟩, rfl⟩

/-- Entries are written one after the other, if all numbers are finite. -/
theorem encodeEntries_eq_ok_iff {ms : List Metadata} {bytes : Bytes} :
    encodeEntries ms = .ok bytes ↔
      (∀ m ∈ ms, m.notFinite? = none) ∧ Piece.encodeAll (entryFields ms) = .ok bytes := by
  simp only [encodeEntries, bind_eq_ok_iff, entryPieces_eq_ok_iff, Piece.assemble_eq_ok_iff]
  constructor
  · rintro ⟨_, ⟨hf, rfl⟩, hb⟩
    exact ⟨hf, hb⟩
  · rintro ⟨hf, hb⟩
    exact ⟨_, ⟨hf, rfl⟩, hb⟩

theorem isEntries_of_encodeEntries {ms : List Metadata} {bytes : Bytes}
    (h : encodeEntries ms = .ok bytes) : IsEntries ms bytes := by
  obtain ⟨hf, hb⟩ := encodeEntries_eq_ok_iff.1 h
  refine ⟨ms.map Metadata.write, ?_, ?_⟩
  · rw [List.map_map]
    exact hb
  · rw [List.forall₂_map_left_iff, List.forall₂_same]
    intro m hm
    exact Metadata.decode_of_encode (Metadata.encode_eq_ok_iff.2 ⟨hf m hm, rfl⟩)

theorem length_entriesLayout (ms : List Metadata) :
    (entriesLayout ms).length = (ms.map fun m => 2 + m.write.length).sum := by
  induction ms with
  | nil => rfl
  | cons m ms ih =>
    have hm : (Piece.field m.write).layout.length = 2 + m.write.length := by
      rw [Piece.layout, List.length_append]
      rfl
    rw [List.map_cons, List.sum_cons, ← ih, ← hm, ← List.length_append]
    rfl

theorem length_write_le {ms : List Metadata} {m : Metadata} (hm : m ∈ ms) :
    m.write.length ≤ (entriesLayout ms).length := by
  rw [length_entriesLayout]
  have := List.single_le_sum (l := ms.map fun m => 2 + m.write.length) (by simp) _
    (List.mem_map_of_mem hm)
  omega

/-! ### Packets -/

variable {p : ApplicationPacket} {bytes : Bytes}

theorem make_eq_ok_iff {payload : Bytes} {ms : List Metadata} :
    make payload ms = .ok p ↔ payload ≠ [] ∧ p = ⟨payload, ms⟩ := by
  unfold make
  split
  · simp [*]
  · simp [*, eq_comm]

theorem exists_make_error_iff {payload : Bytes} {ms : List Metadata} :
    (∃ e, make payload ms = .error e) ↔ payload = [] := by
  unfold make
  split
  · simp [*]
  · simp [*]

/-- The payload and the list, each in a field. -/
theorem encode_eq_ok_iff :
    p.encode = .ok bytes ↔
      ∃ entries, encodeEntries p.metadata = .ok entries ∧
        Piece.encodeAll [.field p.payload, .field entries] = .ok bytes := by
  simp only [encode, bind_eq_ok_iff, Piece.assemble_eq_ok_iff]

/-- **Which bytes are application packets**: a payload that is not empty and a list of
entries, each in a field, and nothing more. -/
theorem decode_eq_ok_iff :
    decode bytes = .ok p ↔
      ∃ entries, p.payload ≠ [] ∧ IsEntries p.metadata entries ∧
        Piece.encodeAll [.field p.payload, .field entries] = .ok bytes := by
  simp only [decode, bind_eq_ok_iff, Piece.encodeAll_field_cons_eq_ok_iff,
    Piece.encodeAll_nil_eq_ok_iff, decodeEntries_eq_ok_iff, make_eq_ok_iff]
  constructor
  · rintro ⟨⟨payload, rest₁⟩, h₁, ⟨entries, rest₂⟩, h₂, ⟨⟩, h₃, ms, hms, hp, rfl⟩
    exact ⟨entries, hp, hms, rest₁, Field.required_eq_ok_iff.1 h₁, rest₂,
      Field.required_eq_ok_iff.1 h₂, Field.finish_eq_ok_iff.1 h₃⟩
  · rintro ⟨entries, hp, hms, rest₁, h₁, rest₂, h₂, h₃⟩
    exact ⟨⟨p.payload, rest₁⟩, Field.required_eq_ok_iff.2 h₁, ⟨entries, rest₂⟩,
      Field.required_eq_ok_iff.2 h₂, (), Field.finish_eq_ok_iff.2 h₃, p.metadata, hms, hp, rfl⟩

/-- A packet is written exactly if the payload fits its field, the numbers are finite, and
all entries with their lengths fit one field. -/
theorem exists_encode_iff :
    (∃ bytes, p.encode = .ok bytes) ↔
      p.payload.length ≤ Field.maxLength ∧ (∀ m ∈ p.metadata, m.notFinite? = none) ∧
        (p.metadata.map fun m => 2 + m.write.length).sum ≤ Field.maxLength := by
  rw [← length_entriesLayout]
  constructor
  · rintro ⟨bytes, he⟩
    obtain ⟨entries, hms, hb⟩ := encode_eq_ok_iff.1 he
    obtain ⟨hf, hes⟩ := encodeEntries_eq_ok_iff.1 hms
    obtain ⟨-, rfl⟩ := Piece.encodeAll_eq_ok_iff.1 hes
    obtain ⟨hfits, -⟩ := Piece.encodeAll_eq_ok_iff.1 hb
    obtain ⟨hp, hfits⟩ := List.forall_mem_cons.1 hfits
    have hl : (Piece.field (entriesLayout p.metadata)).Fits := List.forall_mem_singleton.1 hfits
    exact ⟨hp, hf, hl⟩
  · rintro ⟨hp, hf, hl⟩
    have hes : Piece.encodeAll (entryFields p.metadata) = .ok (entriesLayout p.metadata) := by
      refine Piece.encodeAll_eq_ok_iff.2 ⟨?_, rfl⟩
      rw [entryFields, List.forall_mem_map]
      exact fun m hm => Nat.le_trans (length_write_le hm) hl
    have hb : Piece.encodeAll [.field p.payload, .field (entriesLayout p.metadata)] = .ok _ :=
      Piece.encodeAll_eq_ok_iff.2
        ⟨List.forall_mem_cons.2 ⟨hp, List.forall_mem_singleton.2 hl⟩, rfl⟩
    exact ⟨_, encode_eq_ok_iff.2 ⟨_, encodeEntries_eq_ok_iff.2 ⟨hf, hes⟩, hb⟩⟩

theorem decode_of_encode (hp : p.payload ≠ []) (h : p.encode = .ok bytes) :
    decode bytes = .ok p := by
  obtain ⟨entries, hms, hb⟩ := encode_eq_ok_iff.1 h
  exact decode_eq_ok_iff.2 ⟨entries, hp, isEntries_of_encodeEntries hms, hb⟩

/-- **Application packets are read back, and nothing else is read as one.** A packet is
refused when it is made exactly if it has no payload. It is written exactly if the payload
fits a field, all numbers are finite and all entries together fit a field, and is then
read back with the same entries in the same order. Bytes are accepted exactly if they are
a payload that is not empty and a list of entries, each in a field. -/
theorem round_trip_and_grammar (payload : Bytes) (ms : List Metadata) :
    ((∃ e, make payload ms = .error e) ↔ payload = []) ∧
    (∀ p, make payload ms = .ok p →
      ((∃ bytes, p.encode = .ok bytes) ↔
        payload.length ≤ 65535 ∧
        (∀ m ∈ ms, ∀ x, m.freq = some x ∨ m.lsnr = some x → x.IsFinite) ∧
        (ms.map fun m => 2 + m.write.length).sum ≤ 65535) ∧
      ∀ bytes, p.encode = .ok bytes →
        ∃ q, decode bytes = .ok q ∧ q.payload = payload ∧ q.metadata = ms) ∧
    ∀ bytes, (∃ p, decode bytes = .ok p ∧ p.payload = payload ∧ p.metadata = ms) ↔
      payload ≠ [] ∧ ∃ entries, IsEntries ms entries ∧
        Piece.encodeAll [.field payload, .field entries] = .ok bytes := by
  refine ⟨exists_make_error_iff, ?_, fun bytes => ?_⟩
  · intro p hm
    obtain ⟨hp, rfl⟩ := make_eq_ok_iff.1 hm
    refine ⟨?_, fun bytes he => ⟨_, decode_of_encode hp he, rfl, rfl⟩⟩
    simp only [exists_encode_iff, Metadata.notFinite?_eq_none_iff]
    rfl
  · constructor
    · rintro ⟨p, hd, rfl, rfl⟩
      obtain ⟨entries, hp, hes, hb⟩ := decode_eq_ok_iff.1 hd
      exact ⟨hp, entries, hes, hb⟩
    · rintro ⟨hp, entries, hes, hb⟩
      exact ⟨⟨payload, ms⟩, decode_eq_ok_iff.2 ⟨entries, hp, hes, hb⟩, rfl, rfl⟩

/-- Two gateways, of which one knows nothing. -/
theorem round_trip_and_grammar_two_gateways :
    let p : ApplicationPacket :=
      ⟨[0xCA, 0xFE], [{ rssi := some (-57), codr := some "4/5" }, .empty]⟩
    let bytes : Bytes :=
      [0, 2, 0xCA, 0xFE, 0, 31, 0, 25] ++ ascii "\x7b\"codr\":\"4/5\",\"rssi\":-57\x7d" ++
        [0, 2, 0x7B, 0x7D]
    make p.payload p.metadata = .ok p ∧ p.encode = .ok bytes ∧
      ∃ q, decode bytes = .ok q ∧ q.payload = p.payload ∧ q.metadata = p.metadata := by
  intro p bytes
  have hm : make p.payload p.metadata = .ok p := rfl
  have he : p.encode = .ok bytes := by decide +kernel
  obtain ⟨-, h, -⟩ := round_trip_and_grammar p.payload p.metadata
  exact ⟨hm, he, (h p hm).2 bytes he⟩

end LoraRelay.ApplicationPacket
