import LoraRelay.Proofs.Field.Reader

/-!
# A writer that is kept

None of the calls of a writer says whether it went well. The first content that is too long is
remembered and told when the writing is finished; what is written behind it changes nothing
any more.

## What is proved

* `FieldWriter.run_of_fits`, `run_of_failed` and `run_of_tooLong` — what calls make of a writer:
  they append, an error stays, and the first content that is too long is the one remembered.
* `FieldWriter.finish_run` — a writer that is kept comes to what its calls come to as the parts
  of one packet.
* `FieldWriter.written_and_read_back` — when writing goes well and what is written then, what
  is told otherwise, and that a reader gets the fields and the bytes behind them back.
-/

namespace LoraRelay

namespace FieldWriter

variable {w : FieldWriter} {e : FieldError}

/-! ### One call -/

theorem add_of_failed (h : w.failed = some e) (call : Piece) : w.add call = w := by
  cases call <;> simp [add, write, writeRaw, h]

theorem add_of_fits (h : w.failed = none) {call : Piece} (hc : call.Fits) :
    w.add call = ⟨w.buffer ++ call.layout, none⟩ := by
  cases call with
  | field content =>
    have hl : ¬ Field.maxLength < content.length := Nat.not_lt.2 hc
    simp [add, write, h, hl, Piece.layout]
  | raw bytes => simp [add, writeRaw, h, Piece.layout]

theorem add_of_tooLong (h : w.failed = none) {content : Bytes}
    (hl : Field.maxLength < content.length) :
    w.add (.field content) = ⟨w.buffer, some (.tooLong content.length)⟩ := by
  simp [add, write, h, hl]

/-! ### Calls one after the other -/

/-- **After an error nothing changes.** -/
theorem run_of_failed (h : w.failed = some e) (calls : List Piece) : w.run calls = w := by
  induction calls with
  | nil => rfl
  | cons call calls ih => rw [run, List.foldl_cons, add_of_failed h, ← run, ih]

/-- **Without an error calls append**, one after the other. -/
theorem run_of_fits (h : w.failed = none) {calls : List Piece} (hc : ∀ call ∈ calls, call.Fits) :
    w.run calls = ⟨w.buffer ++ calls.flatMap Piece.layout, none⟩ := by
  induction calls generalizing w with
  | nil =>
    rw [List.flatMap_nil, List.append_nil, ← h]
    rfl
  | cons call calls ih =>
    obtain ⟨hcall, hcalls⟩ := List.forall_mem_cons.1 hc
    rw [run, List.foldl_cons, add_of_fits h hcall, ← run, ih rfl hcalls, List.flatMap_cons,
      List.append_assoc]

/-- **The first error is kept**, whatever was written before it and whatever comes after it. -/
theorem run_of_tooLong (h : w.failed = none) {before : List Piece} {content : Bytes}
    (hb : ∀ call ∈ before, call.Fits) (hl : Field.maxLength < content.length)
    (after : List Piece) :
    w.run (before ++ .field content :: after) =
      ⟨w.buffer ++ before.flatMap Piece.layout, some (.tooLong content.length)⟩ := by
  have hstart : before.foldl add w = ⟨w.buffer ++ before.flatMap Piece.layout, none⟩ :=
    run_of_fits h hb
  rw [run, List.foldl_append, List.foldl_cons, hstart, add_of_tooLong rfl hl, ← run,
    run_of_failed rfl]

/-- **A writer that is kept comes to what its calls come to** as the parts of one packet. -/
theorem finish_run (calls : List Piece) : (empty.run calls).finish = Piece.assemble calls := by
  rw [Piece.assemble]
  cases h : Piece.encodeAll calls with
  | ok bytes =>
    obtain ⟨hc, rfl⟩ := Piece.encodeAll_eq_ok_iff.1 h
    rw [run_of_fits rfl hc]
    rfl
  | error e =>
    obtain ⟨before, content, after, rfl, hb, hl, rfl⟩ := Piece.encodeAll_eq_error_iff.1 h
    rw [run_of_tooLong rfl hb hl]
    rfl

/-! ### Written and read -/

theorem flatMap_layout_fields_raws (contents raws : List Bytes) :
    (contents.map Piece.field ++ raws.map Piece.raw).flatMap Piece.layout =
      (contents.flatMap fun content => (Piece.field content).layout) ++ raws.flatten := by
  have hraws : (raws.map Piece.raw).flatMap Piece.layout = raws.flatten := by
    rw [List.flatMap_map]
    exact List.flatMap_id
  rw [List.flatMap_append, List.flatMap_map, hraws]

/-- Fields are read back from what was written, and what was written behind them is left. -/
theorem exists_finish_and_readMany {contents : List Bytes}
    (hc : ∀ content ∈ contents, (Piece.field content).Fits) (raws : List Bytes) :
    ∃ bytes, (empty.run (contents.map .field ++ raws.map .raw)).finish = .ok bytes ∧
      (FieldReader.readMany contents.length).run bytes = .ok contents raws.flatten := by
  have hcalls : ∀ call ∈ contents.map Piece.field ++ raws.map Piece.raw, call.Fits := by
    rw [Piece.forall_fits_iff]
    intro content hmem
    simp only [List.mem_append, List.mem_map, Piece.field.injEq, exists_eq_right, reduceCtorEq,
      and_false, exists_false, or_false] at hmem
    exact hc content hmem
  refine ⟨_, ?_, FieldReader.run_readMany_append hc raws.flatten⟩
  rw [run_of_fits rfl hcalls, flatMap_layout_fields_raws]
  rfl

/-- **What is written is read back.** Calls come to what they come to as the parts of one
packet. Nothing goes wrong exactly if no content is longer than 65535 bytes, and then each
field with its length in front and all raw bytes stand there in the order of the calls.
Otherwise what is told is the length of the first content that is too long, as a structural
error. Of fields with raw bytes behind them, as many fields are read, these, and the raw bytes
are left; if there are none, that is the end of the stream. -/
theorem written_and_read_back :
    (∀ calls : List Piece,
      (empty.run calls).finish = Piece.assemble calls ∧
      ((∃ bytes, (empty.run calls).finish = .ok bytes) ↔
        ∀ content, .field content ∈ calls → content.length ≤ 65535) ∧
      (∀ bytes, (empty.run calls).finish = .ok bytes → bytes = calls.flatMap Piece.layout) ∧
      (∀ e, (empty.run calls).finish = .error e ↔
        ∃ before content after, calls = before ++ .field content :: after ∧
          (∀ content', .field content' ∈ before → content'.length ≤ 65535) ∧
          65535 < content.length ∧ e = .unwritableField (.tooLong content.length)) ∧
      ∀ e, (empty.run calls).finish = .error e → e.kind = .structural) ∧
    ∀ contents raws : List Bytes, (∀ content ∈ contents, content.length ≤ 65535) →
      ∃ bytes, (empty.run (contents.map .field ++ raws.map .raw)).finish = .ok bytes ∧
        (FieldReader.readMany contents.length).run bytes = .ok contents raws.flatten ∧
        (raws.flatten = [] →
          (FieldReader.readMany contents.length *> FieldReader.read).run bytes =
            .error .endOfStream []) := by
  constructor
  · intro calls
    rw [finish_run]
    refine ⟨rfl, ?_, ?_, ?_, ?_⟩
    · rw [Piece.exists_assemble_iff]
      exact Piece.forall_fits_iff
    · intro bytes h
      exact (Piece.encodeAll_eq_ok_iff.1 (Piece.assemble_eq_ok_iff.1 h)).2
    · intro e
      rw [Piece.assemble_eq_error_iff]
      simp only [Piece.forall_fits_iff, Field.maxLength]
    · intro e h
      obtain ⟨_, _, _, -, -, -, rfl⟩ := Piece.assemble_eq_error_iff.1 h
      rfl
  · intro contents raws hc
    obtain ⟨bytes, hw, hr⟩ := exists_finish_and_readMany hc raws
    refine ⟨bytes, hw, hr, ?_⟩
    intro hnil
    rw [hnil] at hr
    have hend := FieldReader.run_read_of_error (Field.read_eq_error_iff.2 .endOfStream)
    rw [EStateM.run] at hr hend
    show EStateM.seqRight (FieldReader.readMany contents.length) (fun _ => FieldReader.read)
      bytes = _
    rw [EStateM.seqRight, hr]
    exact hend

/-- A content that is one byte too long among others, and a field as long as a field can be
between an empty one and raw bytes. -/
theorem written_and_read_back_full_and_overfull :
    let overfull : Bytes := List.replicate 65536 0
    let calls : List Piece :=
      [.field [1], .raw [9, 9], .field overfull, .field [2], .field (0 :: overfull)]
    let full : Bytes := List.replicate 65535 7
    let contents : List Bytes := [[0x2A], [], full]
    let raws : List Bytes := [[9], [], [8]]
    (empty.run calls).finish = .error (.unwritableField (.tooLong 65536)) ∧
    PacketError.kind (.unwritableField (.tooLong 65536)) = .structural ∧
    (∀ content ∈ contents, content.length ≤ 65535) ∧
    (∃ bytes, (empty.run (contents.map .field ++ raws.map .raw)).finish = .ok bytes ∧
      (FieldReader.readMany contents.length).run bytes = .ok contents [9, 8]) ∧
    ∃ bytes, (empty.run (contents.map .field)).finish = .ok bytes ∧
      (FieldReader.readMany contents.length *> FieldReader.read).run bytes =
        .error .endOfStream [] := by
  intro overfull calls full contents raws
  have hlength : overfull.length = 65536 := List.length_replicate
  have hfull : full.length = 65535 := List.length_replicate
  have hcontents : ∀ content ∈ contents, content.length ≤ 65535 := by
    simp [contents, hfull]
  obtain ⟨hcalls, hread⟩ := written_and_read_back
  obtain ⟨-, -, -, herror, hkind⟩ := hcalls calls
  have he := (herror _).2 ⟨[.field [1], .raw [9, 9]], overfull,
    [.field [2], .field (0 :: overfull)], rfl, by simp, by rw [hlength]; decide, rfl⟩
  rw [hlength] at he
  obtain ⟨bytes, hw, hr, -⟩ := hread contents raws hcontents
  obtain ⟨bytes', hw', -, hend⟩ := hread contents [] hcontents
  rw [List.map_nil, List.append_nil] at hw'
  exact ⟨he, hkind _ he, hcontents, ⟨bytes, hw, hr⟩, bytes', hw', hend rfl⟩

end FieldWriter

end LoraRelay
