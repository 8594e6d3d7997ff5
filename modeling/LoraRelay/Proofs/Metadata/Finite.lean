import LoraRelay.Proofs.Metadata.RoundTrip

/-!
# Metadata that were read can be written

A text in JSON has no word for a number that is not finite, and a number that is too
large is refused. So whatever metadata are read have finite numbers only, in whichever
of its spellings the text was: they can be written, and what is written is read as the
same metadata.

## The model

That all numbers are finite is kept field by field: a token gives a finite number, and
setting a field to one leaves the others as they are. The induction is along the
members of an object or the elements of an array.

## What is proved

* `notFinite?_of_decode` — metadata that were read have finite numbers only.
* `encode_of_decode` — they are written, and read back from that.
-/

namespace LoraRelay.Metadata

open Json (Token)

/-! ### Fields -/

/-- All numbers are finite exactly if every field is. -/
theorem notFinite?_eq_none_iff_get {m : Metadata} :
    m.notFinite? = none ↔ ∀ (k : Key) (v : k.Value), m.get k = some v → k.kind.IsFinite v := by
  constructor
  · intro h k v hv
    exact isFinite_of_get h hv
  · intro h
    rw [notFinite?_eq_none_iff]
    rintro x (hx | hx)
    · exact h .freq x hx
    · exact h .lsnr x hx

theorem notFinite?_empty : empty.notFinite? = none := rfl

theorem notFinite?_set {m : Metadata} (hm : m.notFinite? = none) {k : Key} {o : Option k.Value}
    (ho : ∀ v, o = some v → k.kind.IsFinite v) : (m.set k o).notFinite? = none := by
  rw [notFinite?_eq_none_iff_get] at hm ⊢
  intro j w hw
  by_cases hj : j = k
  · subst hj
    rw [get_set] at hw
    exact ho w hw
  · rw [get_set_of_ne m o hj] at hw
    exact hm j w hw

/-! ### Tokens -/

/-- A value that a token stands for is finite. -/
theorem isFinite_of_ofToken? {k : Kind} {t : Token} {v : k.Value} (h : k.ofToken? t = some v) :
    k.IsFinite v := by
  cases k with
  | real =>
    cases t with
    | number n => exact Binary64.isFinite_of_ofDecimal? h
    | _ => cases h
  | _ => trivial

theorem notFinite?_of_setToken? {m n : Metadata} {k : Key} {t : Token} (hm : m.notFinite? = none)
    (h : m.setToken? k t = some n) : n.notFinite? = none := by
  unfold setToken? at h
  split at h
  · cases h
    exact notFinite?_set hm fun v hv => by cases hv
  · obtain ⟨v, hv, rfl⟩ := Option.map_eq_some_iff.1 h
    refine notFinite?_set hm fun w hw => ?_
    cases hw
    exact isFinite_of_ofToken? hv

/-! ### Objects and arrays -/

theorem notFinite?_of_readMember {p q : Partial} {name : String} {tokens rest : List Token}
    (hp : p.fields.notFinite? = none) (h : readMember p name tokens = some (q, rest)) :
    q.fields.notFinite? = none := by
  unfold readMember at h
  split at h
  · obtain ⟨_, -, h⟩ := Option.map_eq_some_iff.1 h
    cases h
    exact hp
  · split at h
    · cases h
    · split at h
      · cases h
      · obtain ⟨m, hm, h⟩ := Option.map_eq_some_iff.1 h
        cases h
        exact notFinite?_of_setToken? hp hm

theorem notFinite?_of_readMembers {p : Partial} {tokens : List Token} {m : Metadata}
    (hp : p.fields.notFinite? = none) (h : readMembers p tokens = some m) :
    m.notFinite? = none := by
  fun_induction readMembers p tokens with
  | case1 => cases h
  | case2 _ _ _ _ _ _ _ hq ih => exact ih (notFinite?_of_readMember hp hq) h
  | case3 _ _ _ _ _ _ hq =>
    cases h
    exact notFinite?_of_readMember hp hq
  | case4 => cases h
  | case5 => cases h

theorem notFinite?_of_readElements {m n : Metadata} {ks : List Key} {tokens : List Token}
    (hm : m.notFinite? = none) (h : readElements m ks tokens = some n) : n.notFinite? = none := by
  fun_induction readElements m ks tokens with
  | case1 => exact notFinite?_of_setToken? hm h
  | case2 m k ks t rest ih =>
    obtain ⟨m', hm', h⟩ := Option.bind_eq_some_iff.1 h
    exact ih m' (notFinite?_of_setToken? hm hm') h
  | case3 => cases h

theorem notFinite?_of_ofTokens? {tokens : List Token} {m : Metadata}
    (h : ofTokens? tokens = some m) : m.notFinite? = none := by
  unfold ofTokens? at h
  split at h
  · cases h
    exact notFinite?_empty
  · exact notFinite?_of_readMembers notFinite?_empty h
  · exact notFinite?_of_readElements notFinite?_empty h
  · cases h

/-! ### Texts -/

theorem decode_eq_ok_iff {bytes : Bytes} {m : Metadata} :
    decode bytes = .ok m ↔ read? bytes = some m := by
  unfold decode
  split
  · rename_i h
    simp [h]
  · rename_i h
    simp [h]

theorem notFinite?_of_decode {bytes : Bytes} {m : Metadata} (h : decode bytes = .ok m) :
    m.notFinite? = none := by
  obtain ⟨tokens, -, ht⟩ := Option.bind_eq_some_iff.1 (decode_eq_ok_iff.1 h)
  exact notFinite?_of_ofTokens? ht

/-- **Metadata that were read can be written**, and are read back from that. -/
theorem encode_of_decode {bytes : Bytes} {m : Metadata} (h : decode bytes = .ok m) :
    m.encode = .ok m.write ∧ decode m.write = .ok m := by
  have he : m.encode = .ok m.write := encode_eq_ok_iff.2 ⟨notFinite?_of_decode h, rfl⟩
  exact ⟨he, decode_of_encode he⟩

end LoraRelay.Metadata
