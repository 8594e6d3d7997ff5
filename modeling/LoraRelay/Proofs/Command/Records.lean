import LoraRelay.Proofs.Command.Sequence

/-!
# Records of commands

A sequence of commands can be cut into records without looking into their bodies: a known
identifier tells how many bytes are to follow. Where the reader stops, something stands that
is not a record, and what it is decides whether more bytes could help.

## The model

`Records d bytes` says that the bytes are complete records of direction `d`, one after the
other. `Stuck d bytes e` says that a record is wanted and the bytes do not begin with one: the
identifier is not known, or the body is cut short.

## What is proved

* `exists_decodeAll_iff_records` — exactly the bytes that are complete records are read.
* `decodeAll_eq_error_iff` — the reader fails exactly where it is stuck behind complete
  records, with the error that says why.
* `decodeAll_extensions` — reading goes on as if the records before had not been there; a
  record that is cut short can be completed, and behind an unknown identifier nothing helps.
-/

namespace LoraRelay.Command

variable {d : Direction} {a b bytes rest : Bytes} {e : FrameError}

/-! ### Records -/

/-- The bytes are records, one after the other: a known identifier and as many bytes as its
body has in direction `d`. -/
inductive Records (d : Direction) : Bytes → Prop where
  /-- No bytes are no records. -/
  | nil : Records d []
  /-- An identifier and a body, and more records. -/
  | cons {id : CommandId} {body rest : Bytes} :
      body.length = id.bodyLength d → Records d rest → Records d (id.number :: (body ++ rest))

/-- **What is read are complete records**, whatever their bodies hold. -/
theorem exists_decodeAll_iff_records : (∃ cs, decodeAll d bytes = .ok cs) ↔ Records d bytes := by
  simp only [decodeAll_eq_ok_iff]
  constructor
  · rintro ⟨cs, h⟩
    induction h with
    | nil => exact .nil
    | cons hb _ ih => exact .cons (length_of_ofBody? hb) ih
  · intro h
    induction h with
    | nil => exact ⟨[], .nil⟩
    | cons hl _ ih =>
      obtain ⟨c, hc⟩ := exists_ofBody?_of_length hl
      obtain ⟨cs, hcs⟩ := ih
      exact ⟨c :: cs, .cons hc hcs⟩

theorem Records.append (ha : Records d a) (hb : Records d b) : Records d (a ++ b) := by
  induction ha with
  | nil => exact hb
  | cons hl _ ih =>
    rw [List.cons_append, List.append_assoc]
    exact .cons hl ih

/-! ### Reading on -/

theorem decodeAll_cons_append {id : CommandId} {body : Bytes} {c : Command}
    (h : ofBody? id d body = some c) (rest : Bytes) :
    decodeAll d (id.number :: (body ++ rest)) = (decodeAll d rest).map (c :: ·) :=
  decodeAll_cons_of_ok (decodeOne_eq_ok_iff.2 ⟨id, body, rfl, rfl, h⟩)

/-- **Reading goes on** behind what was read, as if that had not been there. -/
theorem decodeAll_append {xs : List Command} (h : decodeAll d a = .ok xs) (b : Bytes) :
    decodeAll d (a ++ b) = (decodeAll d b).map (xs ++ ·) := by
  rw [decodeAll_eq_ok_iff] at h
  induction h with
  | nil =>
    rw [List.nil_append]
    cases decodeAll d b <;> rfl
  | cons hb _ ih =>
    rw [List.cons_append, List.append_assoc, decodeAll_cons_append hb, ih]
    cases decodeAll d b <;> rfl

theorem Records.decodeAll_append_eq_error (h : Records d a) (hb : decodeAll d b = .error e) :
    decodeAll d (a ++ b) = .error e := by
  obtain ⟨xs, hxs⟩ := exists_decodeAll_iff_records.2 h
  rw [decodeAll_append hxs, hb]
  rfl

/-! ### What stops a reader -/

/-- The bytes do not begin with a record although there are some, and why. -/
inductive Stuck (d : Direction) : Bytes → FrameError → Prop where
  /-- The identifier is not known. -/
  | unknown {number : UInt8} {rest : Bytes} :
      CommandId.ofNumber? number = none → Stuck d (number :: rest) (.unknownCommand number d)
  /-- The body is cut short. -/
  | truncated {id : CommandId} {body : Bytes} :
      body.length < id.bodyLength d → Stuck d (id.number :: body) (.truncatedCommand id.number)

/-- No command is read off the front exactly if the bytes do not begin with a record. -/
theorem decodeOne_eq_error_iff {number : UInt8} :
    decodeOne d number rest = .error e ↔ Stuck d (number :: rest) e := by
  constructor
  · intro h
    unfold decodeOne at h
    split at h
    · rename_i hn
      cases h
      exact .unknown hn
    · rename_i id hid
      obtain rfl := CommandId.ofNumber?_eq_some_iff.1 hid
      split at h
      · rename_i hb
        cases h
        refine .truncated (Nat.lt_of_not_le fun hl => ?_)
        obtain ⟨c, hc⟩ := exists_ofBody?_of_length (List.length_take_of_le hl)
        rw [hb] at hc
        cases hc
      · cases h
  · intro h
    cases h with
    | unknown hn => simp only [decodeOne, hn]
    | truncated hl => simp only [decodeOne, CommandId.ofNumber?_number, ofBody?_take_of_lt hl]

theorem Stuck.decodeAll_eq_error (h : Stuck d bytes e) : decodeAll d bytes = .error e := by
  cases bytes with
  | nil => cases h
  | cons number rest => exact decodeAll_cons_of_error (decodeOne_eq_error_iff.2 h)

/-- **The reader fails where it is stuck**: behind complete records and in front of what is
not one. -/
theorem decodeAll_eq_error_iff :
    decodeAll d bytes = .error e ↔
      ∃ front tail, bytes = front ++ tail ∧ Records d front ∧ Stuck d tail e := by
  constructor
  · induction hn : bytes.length using Nat.strongRecOn generalizing bytes with
    | ind n ih =>
      intro h
      cases bytes with
      | nil =>
        rw [decodeAll_nil] at h
        cases h
      | cons number bytes =>
        cases hone : decodeOne d number bytes with
        | error e' =>
          have hs := decodeOne_eq_error_iff.1 hone
          rw [hs.decodeAll_eq_error] at h
          cases h
          exact ⟨[], _, rfl, .nil, hs⟩
        | ok first =>
          obtain ⟨c, rest⟩ := first
          obtain ⟨id, body, rfl, rfl, hb⟩ := decodeOne_eq_ok_iff.1 hone
          rw [decodeAll_cons_append hb] at h
          have hrest : decodeAll d rest = .error e := by
            cases hr : decodeAll d rest with
            | error e' =>
              rw [hr] at h
              exact h
            | ok cs =>
              rw [hr] at h
              cases h
          have hlt : rest.length < n := by
            rw [← hn, List.length_cons, List.length_append]
            omega
          obtain ⟨front, tail, rfl, hf, ht⟩ := ih _ hlt rfl hrest
          refine ⟨id.number :: (body ++ front), tail, ?_, .cons (length_of_ofBody? hb) hf, ht⟩
          rw [List.cons_append, List.append_assoc]
  · rintro ⟨front, tail, rfl, hf, ht⟩
    exact hf.decodeAll_append_eq_error ht.decodeAll_eq_error

/-! ### More bytes -/

theorem decodeAll_append_of_unknown {number : UInt8} {d' : Direction}
    (h : decodeAll d a = .error (.unknownCommand number d')) (b : Bytes) :
    decodeAll d (a ++ b) = .error (.unknownCommand number d') := by
  obtain ⟨front, tail, rfl, hf, ht⟩ := decodeAll_eq_error_iff.1 h
  cases ht with
  | unknown hn =>
    rw [List.append_assoc]
    exact hf.decodeAll_append_eq_error (Stuck.unknown hn).decodeAll_eq_error

/-- A record that is cut short can be completed. -/
theorem exists_decodeAll_append_of_truncated {number : UInt8}
    (h : decodeAll d a = .error (.truncatedCommand number)) :
    ∃ b cs, decodeAll d (a ++ b) = .ok cs := by
  obtain ⟨front, tail, rfl, hf, ht⟩ := decodeAll_eq_error_iff.1 h
  cases ht with
  | @truncated id body hl =>
    let missing := List.replicate (id.bodyLength d - body.length) (0 : UInt8)
    have hr : Records d (id.number :: (body ++ missing ++ [])) := by
      refine .cons ?_ .nil
      rw [List.length_append, List.length_replicate]
      omega
    refine ⟨missing, exists_decodeAll_iff_records.2 ?_⟩
    rw [List.append_nil] at hr
    rw [List.append_assoc]
    exact hf.append hr

/-- The reader has no other errors. -/
theorem truncated_or_unknown_of_decodeAll (h : decodeAll d a = .error e) :
    (∃ number, e = .truncatedCommand number) ∨ ∃ number, e = .unknownCommand number d := by
  obtain ⟨_, _, -, -, ht⟩ := decodeAll_eq_error_iff.1 h
  cases ht with
  | unknown _ => exact .inr ⟨_, rfl⟩
  | truncated _ => exact .inl ⟨_, rfl⟩

theorem decodeAll_append_ne_ok_of_unknown {number : UInt8} {d' : Direction}
    (h : decodeAll d a = .error (.unknownCommand number d')) (b : Bytes) (cs : List Command) :
    decodeAll d (a ++ b) ≠ .ok cs := by
  rw [decodeAll_append_of_unknown h]
  exact nofun

/-- **A cut record is one that more bytes complete**: the reader finds the bytes truncated
exactly if it does not read them but some that begin with them. -/
theorem truncated_iff_exists_append :
    (∃ number, decodeAll d a = .error (.truncatedCommand number)) ↔
      (∀ cs, decodeAll d a ≠ .ok cs) ∧ ∃ b cs, decodeAll d (a ++ b) = .ok cs := by
  constructor
  · rintro ⟨number, h⟩
    refine ⟨fun cs hcs => ?_, exists_decodeAll_append_of_truncated h⟩
    rw [h] at hcs
    cases hcs
  · rintro ⟨hne, b, cs, hb⟩
    cases h : decodeAll d a with
    | ok xs => exact absurd h (hne xs)
    | error e =>
      obtain ⟨number, rfl⟩ | ⟨number, rfl⟩ := truncated_or_unknown_of_decodeAll h
      · exact ⟨number, rfl⟩
      · exact absurd hb (decodeAll_append_ne_ok_of_unknown h b cs)

/-- **An unknown identifier is what no more bytes repair.** -/
theorem unknown_iff_forall_append :
    (∃ number d', decodeAll d a = .error (.unknownCommand number d')) ↔
      ∀ b cs, decodeAll d (a ++ b) ≠ .ok cs := by
  constructor
  · rintro ⟨number, d', h⟩
    exact decodeAll_append_ne_ok_of_unknown h
  · intro hne
    cases h : decodeAll d a with
    | ok xs =>
      have hxs := hne [] xs
      rw [List.append_nil] at hxs
      exact absurd h hxs
    | error e =>
      obtain ⟨number, rfl⟩ | ⟨number, rfl⟩ := truncated_or_unknown_of_decodeAll h
      · obtain ⟨b, cs, hb⟩ := exists_decodeAll_append_of_truncated h
        exact absurd hb (hne b cs)
      · exact ⟨number, d, rfl⟩

/-- **What the errors of a reader mean.** Behind bytes that are read, more are read as they
are alone, and fail as they do alone. Bytes are truncated exactly if they are not read but
some that begin with them are. An identifier in them is unknown exactly if none that begin
with them are read, and then all of these fail with the same error. -/
theorem decodeAll_extensions (d : Direction) (a : Bytes) :
    (∀ xs, decodeAll d a = .ok xs → ∀ b,
      (∀ ys, decodeAll d b = .ok ys → decodeAll d (a ++ b) = .ok (xs ++ ys)) ∧
      ∀ e, decodeAll d b = .error e → decodeAll d (a ++ b) = .error e) ∧
    ((∃ number, decodeAll d a = .error (.truncatedCommand number)) ↔
      (∀ cs, decodeAll d a ≠ .ok cs) ∧ ∃ b cs, decodeAll d (a ++ b) = .ok cs) ∧
    ((∃ number d', decodeAll d a = .error (.unknownCommand number d')) ↔
      ∀ b cs, decodeAll d (a ++ b) ≠ .ok cs) ∧
    ∀ number d', decodeAll d a = .error (.unknownCommand number d') →
      ∀ b, decodeAll d (a ++ b) = .error (.unknownCommand number d') := by
  refine ⟨fun xs ha b => ?_, truncated_iff_exists_append, unknown_iff_forall_append,
    fun number d' => decodeAll_append_of_unknown⟩
  rw [decodeAll_append ha]
  constructor
  · intro ys hb
    rw [hb]
    rfl
  · intro e hb
    rw [hb]
    rfl

/-- A request for a status, then a change of the data rate that is cut short, then one that
is not known. -/
theorem decodeAll_extensions_downlink :
    let cut : Bytes := [0x03, 0x52, 0x07]
    let unknown : Bytes := [0x06, 0xFF]
    decodeAll .down [0x06] = .ok [devStatusReq] ∧
    decodeAll .down cut = .error (.truncatedCommand 0x03) ∧
    decodeAll .down unknown = .error (.unknownCommand 0xFF .down) ∧
    decodeAll .down ([0x06] ++ cut) = .error (.truncatedCommand 0x03) ∧
    (∃ b cs, decodeAll .down (cut ++ b) = .ok cs) ∧
    decodeAll .down (unknown ++ cut) = .error (.unknownCommand 0xFF .down) := by
  intro cut unknown
  have hstatus : decodeAll .down [0x06] = .ok [devStatusReq] := by cbv
  have hcut : decodeAll .down cut = .error (.truncatedCommand 0x03) := by cbv
  have hunknown : decodeAll .down unknown = .error (.unknownCommand 0xFF .down) := by cbv
  exact ⟨hstatus, hcut, hunknown, ((decodeAll_extensions .down _).1 _ hstatus cut).2 _ hcut,
    ((decodeAll_extensions .down cut).2.1.1 ⟨_, hcut⟩).2,
    (decodeAll_extensions .down unknown).2.2.2 _ _ hunknown cut⟩

end LoraRelay.Command
