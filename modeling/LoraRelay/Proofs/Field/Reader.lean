import LoraRelay.Packet.Framing
import LoraRelay.Proofs.Field

/-!
# A reader that is kept

Whoever reads a packet may go on asking when a field was not there or not as it should be. A
field that is cut short stays where it is; one of the wrong length has been taken off when its
length is found out.

## The model

`FieldReader.Takes` says without a reader what a single step can come to, and `FieldReader.Run`
strings such steps together; each keeps the field that was taken off, if one was.

## What is proved

* `Field.read_eq_error_iff` — no field is read exactly if none stands in front, and a length
  that is told is one that is not reached.
* `FieldReader.runAll_eq` — what a reader that is kept answers is what is read step by step.
* `FieldReader.run_readMany_append` — fields in front of anything are read one by one.
* `FieldReader.exists_run` — every run of the reader is one of steps as described.
* `FieldReader.never_skips_or_repeats` — what was taken off and what is left are the bytes
  that were there, after every step of every run.
-/

namespace LoraRelay

/-! ### No field in front -/

namespace Field

variable {bytes : Bytes} {e : FieldError}

/-- The bytes do not begin with a field, and why. -/
inductive Missing : Bytes → FieldError → Prop where
  /-- Nothing is left. -/
  | endOfStream : Missing [] .endOfStream
  /-- The length is cut short. -/
  | length (b : UInt8) : Missing [b] (.truncated 2 1)
  /-- The content is cut short. -/
  | content {hi lo : UInt8} {body : Bytes} : body.length < 256 * hi.toNat + lo.toNat →
      Missing (hi :: lo :: body) (.truncated (256 * hi.toNat + lo.toNat) body.length)

/-- **No field is read** exactly if none stands in front. -/
theorem read_eq_error_iff : read bytes = .error e ↔ Missing bytes e := by
  constructor
  · intro h
    unfold read at h
    split at h
    · cases h
      exact .endOfStream
    · cases h
      exact .length _
    · simp only at h
      split at h
      · rename_i hl
        cases h
        exact .content hl
      · cases h
  · intro h
    cases h with
    | endOfStream => rfl
    | length b => rfl
    | content hl => simp only [read, if_pos hl]

namespace Missing

theorem endOfStream_iff (h : Missing bytes e) : e = .endOfStream ↔ bytes = [] := by
  cases h <;> simp

theorem actual_lt_expected {expected actual : Nat}
    (h : Missing bytes (.truncated expected actual)) :
    actual < expected := by
  cases h with
  | length b => decide
  | content hl => exact hl

end Missing

end Field

/-! ### What is asked for -/

/-- The result of a step that finds no field. -/
def ReadStep.noField (e : FieldError) : ReadStep → ReadResult
  | field => .noField e
  | required name | sized _ name => .refused (.unreadableField name e)

/-- A step asks for a field with this content. -/
def ReadStep.Asks (content : Bytes) : ReadStep → Prop
  | field | required _ => True
  | sized n _ => content.length = n

namespace FieldReader

variable {bytes content rest : Bytes} {e : FieldError}

/-- Takes off so many fields, one after the other. -/
def readMany : Nat → EStateM FieldError Bytes (List Bytes)
  | 0 => return []
  | n + 1 => do
    let content ← read
    let contents ← readMany n
    return content :: contents

/-! ### Single operations -/

theorem run_read_of_ok (h : Field.read bytes = .ok (content, rest)) :
    read.run bytes = .ok content rest := by
  show EStateM.bind (MonadExcept.ofExcept (Field.read bytes)) _ bytes = _
  rw [h]
  rfl

theorem run_read_of_error (h : Field.read bytes = .error e) :
    read.run bytes = .error e bytes := by
  show EStateM.bind (MonadExcept.ofExcept (Field.read bytes)) _ bytes = _
  rw [h]
  rfl

/-- A read that fails finds no field, and leaves everything. -/
theorem run_read_eq_error_iff {left : Bytes} :
    read.run bytes = .error e left ↔ Field.Missing bytes e ∧ left = bytes := by
  rw [← Field.read_eq_error_iff]
  cases h : Field.read bytes with
  | ok first =>
    rw [run_read_of_ok h]
    refine iff_of_false ?_ ?_
    · intro h
      cases h
    · rintro ⟨⟨⟩, -⟩
  | error e' =>
    rw [run_read_of_error h]
    constructor
    · rintro ⟨⟩
      exact ⟨rfl, rfl⟩
    · rintro ⟨⟨⟩, rfl⟩
      rfl

theorem run_readMany_append {contents : List Bytes}
    (h : ∀ content ∈ contents, (Piece.field content).Fits) (tail : Bytes) :
    (readMany contents.length).run
        ((contents.flatMap fun content => (Piece.field content).layout) ++ tail) =
      .ok contents tail := by
  induction contents with
  | nil => rfl
  | cons content contents ih =>
    obtain ⟨hc, hcs⟩ := List.forall_mem_cons.1 h
    have hfirst := run_read_of_ok (Piece.read_layout_append hc
      ((contents.flatMap fun content => (Piece.field content).layout) ++ tail))
    have hothers := ih hcs
    rw [EStateM.run] at hfirst hothers
    rw [List.flatMap_cons, List.append_assoc]
    show EStateM.bind read _ _ = _
    simp only [EStateM.bind, hfirst]
    show EStateM.bind (readMany contents.length) _ _ = _
    simp only [EStateM.bind, hothers]
    rfl

theorem run_required_of_ok (name : String) (h : Field.read bytes = .ok (content, rest)) :
    (required name).run bytes = .ok content rest := by
  have hr : read bytes = .ok content rest := run_read_of_ok h
  show EStateM.adaptExcept _ read bytes = _
  rw [EStateM.adaptExcept, hr]

theorem run_required_of_error (name : String) (h : Field.read bytes = .error e) :
    (required name).run bytes = .error (.unreadableField name e) bytes := by
  have hr : read bytes = .error e bytes := run_read_of_error h
  show EStateM.adaptExcept _ read bytes = _
  rw [EStateM.adaptExcept, hr]

theorem run_sized_of_ok {n : Nat} (name : String) {a : Octets n}
    (h : Field.read bytes = .ok (a.toList, rest)) : (sized n name).run bytes = .ok a rest := by
  have hr : required name bytes = .ok a.toList rest := run_required_of_ok name h
  show EStateM.bind (required name) _ bytes = _
  simp only [EStateM.bind, hr, Octets.ofList?_toList]
  rfl

/-- A field of another length has been taken off when this is found out. -/
theorem run_sized_of_length_ne {n : Nat} (name : String) (hn : content.length ≠ n)
    (h : Field.read bytes = .ok (content, rest)) :
    (sized n name).run bytes = .error (.fieldLength name n content.length) rest := by
  have hr : required name bytes = .ok content rest := run_required_of_ok name h
  show EStateM.bind (required name) _ bytes = _
  simp only [EStateM.bind, hr, Octets.ofList?, dif_neg hn]
  rfl

theorem run_sized_of_error (n : Nat) (name : String) (h : Field.read bytes = .error e) :
    (sized n name).run bytes = .error (.unreadableField name e) bytes := by
  have hr : required name bytes = .error (.unreadableField name e) bytes :=
    run_required_of_error name h
  show EStateM.bind (required name) _ bytes = _
  simp only [EStateM.bind, hr]

/-! ### Single steps -/

theorem perform_of_error (step : ReadStep) (h : Field.read bytes = .error e) :
    perform bytes step = (step.noField e, bytes) := by
  cases step with
  | field => rw [perform, run_read_of_error h, outcome, ReadStep.noField]
  | required name => rw [perform, run_required_of_error name h, outcome, ReadStep.noField]
  | sized n name => rw [perform, run_sized_of_error n name h, outcome, ReadStep.noField]

theorem perform_of_asks (step : ReadStep) (h : Field.read bytes = .ok (content, rest))
    (ha : step.Asks content) : perform bytes step = (.content content, rest) := by
  cases step with
  | field => rw [perform, run_read_of_ok h, outcome]
  | required name => rw [perform, run_required_of_ok name h, outcome]
  | sized n name =>
    have h : Field.read bytes = .ok ((⟨content, ha⟩ : Octets n).toList, rest) := h
    rw [perform, run_sized_of_ok name h, outcome]

theorem perform_of_length_ne {n : Nat} (name : String) (hn : content.length ≠ n)
    (h : Field.read bytes = .ok (content, rest)) :
    perform bytes (.sized n name) = (.refused (.fieldLength name n content.length), rest) := by
  rw [perform, run_sized_of_length_ne name hn h, outcome]

/-- What a reader that is kept comes to is what is read of the bytes that are left. -/
theorem perform_eq (bytes : Bytes) (step : ReadStep) :
    perform bytes step = (step.result bytes, Field.afterRead bytes) := by
  cases h : Field.read bytes with
  | error e =>
    rw [perform_of_error step h, Field.afterRead, h]
    cases step with
    | field => rw [ReadStep.result, h, ReadStep.noField]
    | required name =>
      rw [ReadStep.result, Field.required_of_read_error name h, ReadStep.noField]
    | sized n name =>
      rw [ReadStep.result, Field.sized_of_read_error n name h, ReadStep.noField]
  | ok first =>
    obtain ⟨content, rest⟩ := first
    rw [Field.afterRead, h]
    cases step with
    | field => rw [perform_of_asks .field h trivial, ReadStep.result, h]
    | required name =>
      rw [perform_of_asks (.required name) h trivial, ReadStep.result,
        Field.required_eq_ok_iff.2 h]
    | sized n name =>
      by_cases hn : content.length = n
      · have hs : Field.sized n name bytes = .ok (⟨content, hn⟩, rest) :=
          Field.sized_eq_ok_iff.2 h
        rw [perform_of_asks (.sized n name) h hn, ReadStep.result, hs]
      · rw [perform_of_length_ne name hn h, ReadStep.result, Field.sized_of_length_ne name hn h]

/-- **What a reader that is kept answers** is what is read step by step. -/
theorem runAll_eq (bytes : Bytes) (steps : List ReadStep) :
    runAll bytes steps = ReadStep.runAll bytes steps := by
  induction steps generalizing bytes with
  | nil => rfl
  | cons step steps ih => rw [runAll, ReadStep.runAll, ih, perform_eq]

/-! ### What a step can come to -/

/-- A step of a run: what was asked for, what came of it, the field that was taken off, if one
was, and what was left. -/
structure Event where
  /-- The step. -/
  step : ReadStep
  /-- What it came to. -/
  result : ReadResult
  /-- The content of the field that it took off. -/
  field : Option Bytes
  /-- What it left. -/
  left : Bytes

/-- What is seen of a step. -/
def Event.answer (event : Event) : ReadResult × Bytes := (event.result, event.left)

/-- A step can come to this where `bytes` are left. -/
inductive Takes : Bytes → Event → Prop where
  /-- The field in front is what the step asks for. -/
  | asked {step : ReadStep} {content rest : Bytes} :
      (Piece.field content).Fits → step.Asks content →
        Takes ((Piece.field content).layout ++ rest) ⟨step, .content content, some content, rest⟩
  /-- The field in front has not the length that it must have. -/
  | wrongLength {n : Nat} {name : String} {content rest : Bytes} :
      (Piece.field content).Fits → content.length ≠ n →
        Takes ((Piece.field content).layout ++ rest)
          ⟨.sized n name, .refused (.fieldLength name n content.length), some content, rest⟩
  /-- No field stands in front. -/
  | missing {step : ReadStep} {e : FieldError} {bytes : Bytes} :
      Field.Missing bytes e → Takes bytes ⟨step, step.noField e, none, bytes⟩

/-- Every step of the reader is one of these. -/
theorem exists_takes (bytes : Bytes) (step : ReadStep) :
    ∃ event, Takes bytes event ∧ event.step = step ∧ event.answer = perform bytes step := by
  cases h : Field.read bytes with
  | error e =>
    exact ⟨_, .missing (Field.read_eq_error_iff.1 h), rfl, (perform_of_error step h).symm⟩
  | ok first =>
    obtain ⟨content, rest⟩ := first
    obtain ⟨front, he, rfl⟩ := Field.read_eq_ok_iff.1 h
    obtain ⟨hf, rfl⟩ := Field.encode_eq_ok_iff.1 he
    by_cases ha : step.Asks content
    · exact ⟨_, .asked hf ha, rfl, (perform_of_asks step h ha).symm⟩
    · cases step with
      | field => exact absurd trivial ha
      | required name => exact absurd trivial ha
      | sized n name => exact ⟨_, .wrongLength hf ha, rfl, (perform_of_length_ne name ha h).symm⟩

section Takes

variable {event : Event}

theorem not_missing_layout_append (hf : (Piece.field content).Fits) :
    ¬ Field.Missing ((Piece.field content).layout ++ rest) e := by
  intro h
  have hr := Piece.read_layout_append hf rest
  rw [Field.read_eq_error_iff.2 h] at hr
  cases hr

/-- The bytes of the fields that were taken off. -/
def taken (log : List Event) : Bytes :=
  (log.filterMap Event.field).flatMap fun content => (Piece.field content).layout

theorem taken_append (log log' : List Event) : taken (log ++ log') = taken log ++ taken log' := by
  rw [taken, List.filterMap_append, List.flatMap_append, taken, taken]

/-- **A step skips nothing and repeats nothing**: what it took off and what it left are what
was there. -/
theorem Takes.eq_taken_append (h : Takes bytes event) : bytes = taken [event] ++ event.left := by
  cases h <;> simp [taken]

/-- Where no field stands in front, every step says so and leaves everything. -/
theorem Takes.of_missing (h : Takes bytes event) (hm : Field.Missing bytes e) :
    event.result = event.step.noField e ∧ event.left = bytes := by
  cases h with
  | asked hf => exact absurd hm (not_missing_layout_append hf)
  | wrongLength hf => exact absurd hm (not_missing_layout_append hf)
  | missing hm' =>
    have he := Field.read_eq_error_iff.2 hm
    rw [Field.read_eq_error_iff.2 hm'] at he
    cases he
    exact ⟨rfl, rfl⟩

theorem Takes.missing_of_result (h : Takes bytes event)
    (he : event.result = event.step.noField e) :
    Field.Missing bytes e ∧ event.field = none ∧ event.left = bytes := by
  cases h with
  | @asked step _ _ _ _ => cases step <;> cases he
  | wrongLength => cases he
  | @missing step e' _ hm =>
    have : e' = e := by cases step <;> cases he <;> rfl
    exact ⟨this ▸ hm, rfl, rfl⟩

/-- A step that says that a field has the wrong length has taken it off. -/
theorem Takes.of_fieldLength {name : String} {n actual : Nat} (h : Takes bytes event)
    (hr : event.result = .refused (.fieldLength name n actual)) :
    ∃ content, event.field = some content ∧ content.length = actual ∧ actual ≠ n := by
  cases h with
  | asked => cases hr
  | wrongLength _ hn =>
    cases hr
    exact ⟨_, rfl, rfl, hn⟩
  | @missing step _ _ _ => cases step <;> cases hr

end Takes

/-! ### Runs -/

/-- Steps one after the other, each where the one before left the reader. -/
inductive Run : Bytes → List Event → Prop where
  /-- Nothing is asked for. -/
  | nil {bytes : Bytes} : Run bytes []
  /-- A step, and a run from what it left. -/
  | cons {bytes : Bytes} {event : Event} {log : List Event} :
      Takes bytes event → Run event.left log → Run bytes (event :: log)

/-- **Every run of the reader** is one of such steps, whether they find fields or not. -/
theorem exists_run (bytes : Bytes) (steps : List ReadStep) :
    ∃ log, Run bytes log ∧ log.map Event.step = steps ∧
      log.map Event.answer = runAll bytes steps := by
  induction steps generalizing bytes with
  | nil => exact ⟨[], .nil, rfl, rfl⟩
  | cons step steps ih =>
    obtain ⟨event, ht, hs, ha⟩ := exists_takes bytes step
    obtain ⟨log, hr, hss, hrs⟩ := ih event.left
    have hl : (perform bytes step).2 = event.left := by rw [← ha, Event.answer]
    refine ⟨event :: log, .cons ht hr, ?_, ?_⟩
    · rw [List.map_cons, hs, hss]
    · rw [List.map_cons, ha, hrs, runAll, hl]

section Run

variable {data : Bytes} {event : Event} {log done later : List Event}

/-- What is behind the fields taken off so far is what a step of a run finds, and the run goes
on from what it leaves. -/
theorem Run.exists_before (h : Run data (done ++ event :: later)) :
    ∃ before, data = taken done ++ before ∧ Takes before event ∧ Run event.left later := by
  induction done generalizing data with
  | nil =>
    cases h with
    | cons ht hr => exact ⟨data, rfl, ht, hr⟩
  | cons first done ih =>
    cases h with
    | cons ht hr =>
      obtain ⟨before, hb, hbt, hbr⟩ := ih hr
      refine ⟨before, ?_, hbt, hbr⟩
      rw [← List.singleton_append, taken_append, List.append_assoc, ← hb]
      exact ht.eq_taken_append

theorem Run.of_missing (h : Run bytes log) (hm : Field.Missing bytes e) :
    ∀ event ∈ log, event.result = event.step.noField e ∧ event.left = bytes := by
  induction h with
  | nil => exact List.forall_mem_nil _
  | cons ht _ ih =>
    obtain ⟨hr, hl⟩ := ht.of_missing hm
    rw [hl] at ih
    exact List.forall_mem_cons.2 ⟨⟨hr, hl⟩, ih hm⟩

end Run

/-- **A reader never skips or repeats a byte.** Whatever is asked for, what was read step by
step is what the reader that is kept answers. After every step, the fields taken off so far,
each with its length in front, and what is left are the bytes that were there. A step that
finds no field takes nothing off, and then no later one finds any, for the same reason, which
is the end of the stream exactly if nothing is left. A step that finds a field of the wrong
length has taken off this one. -/
theorem never_skips_or_repeats (data : Bytes) (steps : List ReadStep) :
    runAll data steps = ReadStep.runAll data steps ∧
    ∃ log, log.map Event.step = steps ∧ log.map Event.answer = runAll data steps ∧
      ∀ done event later, log = done ++ event :: later →
        data = taken (done ++ [event]) ++ event.left ∧
        ∃ before, data = taken done ++ before ∧ Takes before event ∧
          (∀ e, event.result = event.step.noField e →
            event.field = none ∧ event.left = before ∧ (e = .endOfStream ↔ before = []) ∧
            ∀ event' ∈ later, event'.result = event'.step.noField e ∧ event'.left = before) ∧
          ∀ name n actual, event.result = .refused (.fieldLength name n actual) →
            ∃ content, event.field = some content ∧ content.length = actual ∧ actual ≠ n := by
  obtain ⟨log, hrun, hsteps, hanswers⟩ := exists_run data steps
  refine ⟨runAll_eq data steps, log, hsteps, hanswers, ?_⟩
  rintro done event later rfl
  obtain ⟨before, hdata, htakes, hlater⟩ := hrun.exists_before
  refine ⟨?_, before, hdata, htakes, ?_, fun name n actual => htakes.of_fieldLength⟩
  · rw [taken_append, List.append_assoc, ← htakes.eq_taken_append]
    exact hdata
  · intro e he
    obtain ⟨hm, hfield, hleft⟩ := htakes.missing_of_result he
    rw [hleft] at hlater
    exact ⟨hfield, hleft, hm.endOfStream_iff, hlater.of_missing hm⟩

/-- Two fields, of which the second is shorter than it must be, and a third that is cut short:
the second is gone when the third is asked for, and the third stays. -/
theorem never_skips_or_repeats_cut_short :
    let data : Bytes := [0, 1, 0x2A, 0, 2, 7, 8, 0, 9, 1]
    let steps : List ReadStep := [.field, .sized 3 "nonce", .required "payload", .field]
    let answers : List (ReadResult × Bytes) :=
      [(.content [0x2A], [0, 2, 7, 8, 0, 9, 1]),
        (.refused (.fieldLength "nonce" 3 2), [0, 9, 1]),
        (.refused (.unreadableField "payload" (.truncated 9 1)), [0, 9, 1]),
        (.noField (.truncated 9 1), [0, 9, 1])]
    runAll data steps = answers ∧
    ∃ first wrong cut last, [first, wrong, cut, last].map Event.answer = answers ∧
      (∃ content, wrong.field = some content ∧ content.length = 2 ∧ 2 ≠ 3) ∧
      data = taken [first, wrong] ++ wrong.left ∧
      cut.field = none ∧ cut.left = wrong.left ∧
      last.result = .noField (.truncated 9 1) ∧ last.left = wrong.left := by
  intro data steps answers
  have hanswers : runAll data steps = answers := rfl
  obtain ⟨-, log, hsteps, hlog, h⟩ := never_skips_or_repeats data steps
  rw [hanswers] at hlog
  obtain ⟨first, log, rfl, hfirst, hlog⟩ := List.map_eq_cons_iff.1 hlog
  obtain ⟨wrong, log, rfl, hwrong, hlog⟩ := List.map_eq_cons_iff.1 hlog
  obtain ⟨cut, log, rfl, hcut, hlog⟩ := List.map_eq_cons_iff.1 hlog
  obtain ⟨last, log, rfl, hlast, hlog⟩ := List.map_eq_cons_iff.1 hlog
  obtain rfl := List.map_eq_nil_iff.1 hlog
  simp only [steps, List.map_cons, List.map_nil, List.cons.injEq, and_true] at hsteps
  obtain ⟨-, -, hcutStep, hlastStep⟩ := hsteps
  obtain ⟨hdata, -, -, -, -, hlength⟩ := h [first] wrong [cut, last] rfl
  obtain ⟨-, before, hbefore, -, hmissing, -⟩ := h [first, wrong] cut [last] rfl
  obtain rfl := List.append_cancel_left (hbefore.symm.trans hdata)
  have hcutResult : cut.result = cut.step.noField (.truncated 9 1) := by
    rw [hcutStep]
    exact congrArg Prod.fst hcut
  obtain ⟨hfield, hleft, -, hlater⟩ := hmissing (.truncated 9 1) hcutResult
  obtain ⟨hlastResult, hlastLeft⟩ := hlater last (List.mem_singleton_self last)
  rw [hlastStep] at hlastResult
  refine ⟨hanswers, first, wrong, cut, last, ?_, hlength _ _ _ (congrArg Prod.fst hwrong), hdata,
    hfield, hleft, hlastResult, hlastLeft⟩
  rw [List.map_cons, List.map_cons, List.map_cons, List.map_cons, hfirst, hwrong, hcut, hlast]
  rfl

end FieldReader

end LoraRelay
