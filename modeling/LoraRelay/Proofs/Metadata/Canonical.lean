import LoraRelay.Proofs.Metadata.Finite
import LoraRelay.Proofs.Outcome

/-!
# Texts of metadata

A text in JSON has no word for an infinity or for no number at all: metadata with such a
number are refused, and all other metadata are written and read back as they were. A text
that was read is another matter, since there are many spellings of the same metadata: fields
in any order, or as an array, unknown keys, blanks, escapes, integers for real numbers,
numbers with any count of digits. Whatever the spelling was, the metadata can be sent on.

## The model

`canonicalText` takes a text to the one in which its metadata are sent on. The texts that are
written are its fixed points, so that nothing more changes on later hops.

## What is proved

* `Metadata.encode_eq_error_iff_isSpecial` — which metadata are refused, and for which field.
* `Metadata.refused_or_read_back` — metadata are refused for such a number, or read back.
* `Metadata.forwardable_of_decode` — metadata that were read are written, in the canonical
  text, which stays as it is.
-/

namespace LoraRelay.Metadata

variable {m : Metadata} {x y : Bytes} {e : PacketError}

/-! ### Numbers without a text -/

/-- The field holds a number that has no text: an infinity, or no number at all. -/
def IsSpecial (field : Option Binary64) : Prop := ∃ v ∈ field, v.IsNaN ∨ v.IsInfinite

theorem isSpecial_iff {field : Option Binary64} :
    IsSpecial field ↔ field.any (¬ ·.IsFinite) = true := by
  cases field with
  | none => simp [IsSpecial]
  | some v => simp [IsSpecial, Binary64.not_isFinite_iff]

/-- The frequency is looked at before the signal-to-noise ratio. -/
theorem notFinite?_eq_some_iff {k : Key} :
    m.notFinite? = some k ↔
      IsSpecial m.freq ∧ k = .freq ∨ ¬ IsSpecial m.freq ∧ IsSpecial m.lsnr ∧ k = .lsnr := by
  by_cases hf : IsSpecial m.freq
  · rw [notFinite?, if_pos (isSpecial_iff.1 hf)]
    simp [hf, eq_comm (a := k)]
  · rw [notFinite?, if_neg (mt isSpecial_iff.2 hf)]
    by_cases hl : IsSpecial m.lsnr
    · rw [if_pos (isSpecial_iff.1 hl)]
      simp [hf, hl, eq_comm (a := k)]
    · rw [if_neg (mt isSpecial_iff.2 hl)]
      simp [hf, hl]

/-- **Which metadata are refused**: those with such a number, and the error names the first
field that holds one. -/
theorem encode_eq_error_iff_isSpecial :
    m.encode = .error e ↔
      IsSpecial m.freq ∧ e = .notFinite .freq ∨
        ¬ IsSpecial m.freq ∧ IsSpecial m.lsnr ∧ e = .notFinite .lsnr := by
  simp only [encode_eq_error_iff, notFinite?_eq_some_iff]
  constructor
  · rintro ⟨_, ⟨hf, rfl⟩ | ⟨hf, hl, rfl⟩, rfl⟩
    · exact .inl ⟨hf, rfl⟩
    · exact .inr ⟨hf, hl, rfl⟩
  · rintro (⟨hf, rfl⟩ | ⟨hf, hl, rfl⟩)
    · exact ⟨_, .inl ⟨hf, rfl⟩, rfl⟩
    · exact ⟨_, .inr ⟨hf, hl, rfl⟩, rfl⟩

theorem exists_encode_eq_error_iff :
    (∃ e, m.encode = .error e) ↔ IsSpecial m.freq ∨ IsSpecial m.lsnr := by
  simp only [encode_eq_error_iff_isSpecial]
  by_cases hf : IsSpecial m.freq
  · simp [hf]
  · simp [hf]

/-- **Metadata are refused for a number that has no text, or read back as they were**: the
strings, integers and truth values, the numbers with every bit of their words, and the fields
that are unset. -/
theorem refused_or_read_back (m : Metadata) :
    ((∃ e, m.encode = .error e) ↔ IsSpecial m.freq ∨ IsSpecial m.lsnr) ∧
    (∀ e, m.encode = .error e → e.kind = .structural) ∧
    ((∃ text, m.encode = .ok text ∧ decode text = .ok m) ↔
      ¬ (IsSpecial m.freq ∨ IsSpecial m.lsnr)) := by
  refine ⟨exists_encode_eq_error_iff, ?_, ?_⟩
  · intro e he
    rcases encode_eq_error_iff_isSpecial.1 he with ⟨-, rfl⟩ | ⟨-, -, rfl⟩ <;> rfl
  · rw [← exists_encode_eq_error_iff]
    constructor
    · rintro ⟨text, ht, -⟩ ⟨e, he⟩
      rw [ht] at he
      cases he
    · intro hn
      cases ht : m.encode with
      | ok text => exact ⟨text, rfl, decode_of_encode ht⟩
      | error e => exact absurd ⟨e, ht⟩ hn

/-- Strings with a quote, a backslash, control characters and letters beyond ASCII, the negative
zero and the least number above zero; and infinite noise. -/
theorem refused_or_read_back_subnormal :
    let m : Metadata :=
      { codr := some "4\"\\5\n\x01", datr := some "SF7é😀", freq := some ⟨0x8000000000000000⟩,
        imme := some false, lsnr := some ⟨1⟩, rssi := some (-2147483648), tmst := some 4294967295 }
    let loud : Metadata := { m with lsnr := some ⟨0x7FF0000000000000⟩ }
    (∃ text, m.encode = .ok text ∧ decode text = .ok m) ∧ ∃ e, loud.encode = .error e := by
  intro m loud
  have hm : ¬ (IsSpecial m.freq ∨ IsSpecial m.lsnr) := by
    simp only [isSpecial_iff]
    decide
  have hl : IsSpecial loud.freq ∨ IsSpecial loud.lsnr := by
    simp only [isSpecial_iff]
    decide
  exact ⟨(refused_or_read_back m).2.2.2 hm, (refused_or_read_back loud).1.2 hl⟩

/-! ### Canonical texts -/

/-- The text in which metadata are sent on: what was read of a text is written again. -/
def canonicalText (text : Bytes) : Except PacketError Bytes := do
  (← decode text).encode

theorem canonicalText_eq_ok_iff :
    canonicalText x = .ok y ↔ ∃ m, decode x = .ok m ∧ m.write = y := by
  rw [canonicalText, bind_eq_ok_iff]
  constructor
  · rintro ⟨m, hx, hy⟩
    exact ⟨m, hx, (encode_eq_ok_iff.1 hy).2⟩
  · rintro ⟨m, hx, rfl⟩
    exact ⟨m, hx, (encode_of_decode hx).1⟩

/-- **Canonical texts stay as they are.** -/
theorem canonicalText_of_canonicalText (h : canonicalText x = .ok y) : canonicalText y = .ok y := by
  obtain ⟨m, hx, rfl⟩ := canonicalText_eq_ok_iff.1 h
  exact canonicalText_eq_ok_iff.2 ⟨m, (encode_of_decode hx).2, rfl⟩

/-- **Whatever metadata were read can be sent on**, in whichever spelling they came: their
numbers are finite, they are written in the canonical text and read back from it, and writing
again what was read from that gives the same bytes. -/
theorem forwardable_of_decode (h : decode x = .ok m) :
    (∀ v, m.freq = some v ∨ m.lsnr = some v → v.IsFinite) ∧
    ∃ text, m.encode = .ok text ∧ decode text = .ok m ∧
      canonicalText x = .ok text ∧ canonicalText text = .ok text := by
  obtain ⟨he, hd⟩ := encode_of_decode h
  have hc : canonicalText x = .ok m.write := canonicalText_eq_ok_iff.2 ⟨m, h, rfl⟩
  exact ⟨notFinite?_eq_none_iff.1 (notFinite?_of_decode h), m.write, he, hd, hc,
    canonicalText_of_canonicalText hc⟩

/-- Fields in another order, blanks, an escape in a key, an unknown key with a number that
would overflow, an integer for a frequency and a field that is `null`. -/
theorem forwardable_of_decode_respelled :
    let x : Bytes := ascii ("\x7b \"lsnr\" : -52e-1, \"x\" : [1e999, \x7b\x7d]," ++
      " \"fr\\u0065q\" : 868, \"codr\" : null, \"datr\" : \"SF\\u0037\", \"rssi\" : -57 \x7d")
    let m : Metadata :=
      { datr := some "SF7", freq := some ⟨0x408B200000000000⟩, lsnr := some ⟨0xC014CCCCCCCCCCCD⟩,
        rssi := some (-57) }
    decode x = .ok m ∧
      ∃ text, m.encode = .ok text ∧ decode text = .ok m ∧
        canonicalText x = .ok text ∧ canonicalText text = .ok text := by
  intro x m
  have h : decode x = .ok m := by decide +kernel
  exact ⟨h, (forwardable_of_decode h).2⟩

/-- The canonical text of these metadata. -/
example :
    canonicalText (ascii "\x7b\"rssi\":-57, \"freq\":8.68e2\x7d") =
      .ok (ascii "\x7b\"freq\":868.0,\"rssi\":-57\x7d") := by
  decide +kernel

end LoraRelay.Metadata
