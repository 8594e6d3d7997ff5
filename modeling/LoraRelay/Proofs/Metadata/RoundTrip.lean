import LoraRelay.Packet.Parts
import LoraRelay.Proofs.Json.Token

/-!
# Metadata are read back

Metadata whose numbers are all finite are read back from what they are written as
(`Metadata.decode_of_encode`).

## The model

The members of the object are the fields that are set, in the order of the keys
(`Metadata.members`). Each is cut into a name, a colon and one token that the kind of
the field reads as its value, and the reader sets the fields one after the other: it
has not seen a key before, as no key occurs twice. Fields set in this way come to the
metadata again, because a field that is no member is unset on both sides.
-/

namespace LoraRelay.Metadata

open Json (Token EndsNumber)

/-! ### Finite numbers -/

/-- A value that is a number is finite. -/
def Kind.IsFinite : (k : Kind) → k.Value → Prop
  | .real, x => x.IsFinite
  | _, _ => True

/-- The numbers of metadata are those of two fields. -/
theorem notFinite?_eq_none_iff {m : Metadata} :
    m.notFinite? = none ↔ ∀ x, m.freq = some x ∨ m.lsnr = some x → x.IsFinite := by
  have ha : ∀ o : Option Binary64,
      o.any (¬ ·.IsFinite) = true ↔ ∃ x, o = some x ∧ ¬ x.IsFinite := by
    intro o
    cases o with
    | none => simp
    | some x => simp
  unfold notFinite?
  simp only [ha]
  split
  · rename_i h
    obtain ⟨x, hx, hn⟩ := h
    exact iff_of_false (by simp) fun h => hn (h x (.inl hx))
  · rename_i h₁
    split
    · rename_i h
      obtain ⟨x, hx, hn⟩ := h
      exact iff_of_false (by simp) fun h => hn (h x (.inr hx))
    · rename_i h₂
      refine iff_of_true rfl ?_
      rintro x (hx | hx)
      · exact by_contra fun hn => h₁ ⟨x, hx, hn⟩
      · exact by_contra fun hn => h₂ ⟨x, hx, hn⟩

theorem exists_notFinite_iff {m : Metadata} :
    (∃ key, m.notFinite? = some key) ↔
      ∃ x, (m.freq = some x ∨ m.lsnr = some x) ∧ ¬ x.IsFinite := by
  rw [← Option.ne_none_iff_exists', ne_eq, notFinite?_eq_none_iff]
  simp only [not_forall, exists_prop]

theorem isFinite_of_get {m : Metadata} (h : m.notFinite? = none) {k : Key} {v : k.Value}
    (hv : m.get k = some v) : k.kind.IsFinite v := by
  rw [notFinite?_eq_none_iff] at h
  cases k with
  | freq => exact h v (.inl hv)
  | lsnr => exact h v (.inr hv)
  | _ => trivial

/-! ### Values -/

theorem uint32OfInt?_toNat (n : UInt32) : uint32OfInt? n.toNat = some n := by
  have h := n.toNat_lt
  rw [uint32OfInt?, if_pos (by omega), Int.toNat_natCast, UInt32.ofNat_toNat]

theorem int32OfInt?_toInt (i : Int32) : int32OfInt? i.toInt = some i := by
  have h₁ := i.le_toInt
  have h₂ := i.toInt_lt
  rw [int32OfInt?, if_pos (by omega), Int32.ofInt_toInt]

/-- A value is cut off as one token, which is read as that value. -/
theorem exists_token_write {k : Kind} {v : k.Value} (hv : k.IsFinite v) (done : List Token)
    {rest : Bytes} (hr : EndsNumber rest) :
    ∃ t, Token.scanAll done (k.write v ++ rest) = Token.scanAll (t :: done) rest ∧
      k.ofToken? t = some v := by
  cases k with
  | unsigned =>
    obtain ⟨n, hn, hi⟩ := Json.exists_scan_writeInt v.toNat hr
    refine ⟨.number n, Token.scanAll_number hn, ?_⟩
    rw [Kind.ofToken?, hi, Option.bind_some]
    exact uint32OfInt?_toNat v
  | signed =>
    obtain ⟨n, hn, hi⟩ := Json.exists_scan_writeInt v.toInt hr
    refine ⟨.number n, Token.scanAll_number hn, ?_⟩
    rw [Kind.ofToken?, hi, Option.bind_some]
    exact int32OfInt?_toInt v
  | text => exact ⟨Token.ofText v, Token.scanAll_quote v, Json.ofParts?_map_partOf v⟩
  | flag => exact ⟨.bool v, Token.scanAll_bool v, rfl⟩
  | real =>
    obtain ⟨n, hn, hx⟩ := Json.exists_scan_writeBinary64 hv hr
    exact ⟨.number n, Token.scanAll_number hn, hx⟩

theorem Kind.ofToken?_null (k : Kind) : k.ofToken? .null = none := by
  cases k <;> rfl

theorem setToken?_eq_some {m : Metadata} {k : Key} {t : Token} {v : k.Value}
    (h : k.kind.ofToken? t = some v) : m.setToken? k t = some (m.set k (some v)) := by
  cases t with
  | null =>
    rw [Kind.ofToken?_null] at h
    cases h
  | _ => simp only [setToken?, h, Option.map_some]

/-! ### Members -/

/-- A field that is set. -/
abbrev Member : Type := (k : Key) × k.Value

/-- The fields that are set, in the order of the keys. -/
def members (m : Metadata) : List Member := Key.all.filterMap fun k => (m.get k).map (⟨k, ·⟩)

/-- Metadata with one more field. -/
def setMember (m : Metadata) (x : Member) : Metadata := m.set x.1 (some x.2)

/-- A member as it is written. -/
def writeMember (x : Member) : Bytes := writeField x.1 x.2

theorem writeFields_eq (m : Metadata) : m.writeFields = m.members.map writeMember := by
  rw [writeFields, members, List.map_filterMap]
  simp only [Option.map_map]
  rfl

theorem mem_members_iff {m : Metadata} {x : Member} : x ∈ m.members ↔ m.get x.1 = some x.2 := by
  simp only [members, List.mem_filterMap, Option.map_eq_some_iff]
  constructor
  · rintro ⟨k, -, v, hv, rfl⟩
    exact hv
  · intro h
    exact ⟨x.1, Key.mem_all x.1, x.2, h, rfl⟩

theorem nodup_keys_members (m : Metadata) : (m.members.map Sigma.fst).Nodup := by
  have ha : Key.all.Nodup := by
    decide
  rw [members, List.map_filterMap]
  refine ha.filterMap fun j k i hj hk => ?_
  simp only [Option.map_map, Option.mem_def, Option.map_eq_some_iff, Function.comp_apply] at hj hk
  obtain ⟨_, _, rfl⟩ := hj
  obtain ⟨_, _, rfl⟩ := hk
  rfl

theorem get_foldl_of_not_mem {xs : List Member} {k : Key} (h : k ∉ xs.map Sigma.fst)
    (n : Metadata) : (xs.foldl setMember n).get k = n.get k := by
  induction xs generalizing n with
  | nil => rfl
  | cons x xs ih =>
    rw [List.map_cons, List.mem_cons, not_or] at h
    rw [List.foldl_cons, ih h.2, setMember, get_set_of_ne _ _ h.1]

/-- Setting members one after the other sets each as it says, as no later one has its key. -/
theorem get_foldl_of_mem {xs : List Member} (hn : (xs.map Sigma.fst).Nodup) {x : Member}
    (hx : x ∈ xs) (n : Metadata) : (xs.foldl setMember n).get x.1 = some x.2 := by
  induction xs generalizing n with
  | nil => cases hx
  | cons y ys ih =>
    rw [List.map_cons, List.nodup_cons] at hn
    rw [List.foldl_cons]
    rcases List.mem_cons.1 hx with rfl | hx
    · rw [get_foldl_of_not_mem hn.1, setMember, get_set]
    · exact ih hn.2 hx _

theorem foldl_setMember_members (m : Metadata) : m.members.foldl setMember empty = m := by
  apply ext_get
  intro k
  by_cases hk : k ∈ m.members.map Sigma.fst
  · obtain ⟨x, hx, rfl⟩ := List.mem_map.1 hk
    rw [get_foldl_of_mem (nodup_keys_members m) hx, mem_members_iff.1 hx]
  · rw [get_foldl_of_not_mem hk, get_empty]
    cases hv : m.get k with
    | none => rfl
    | some v => exact absurd (List.mem_map_of_mem (mem_members_iff.2 hv : ⟨k, v⟩ ∈ m.members)) hk

/-! ### Objects -/

/-- A member is cut off as its name, a colon and the token of its value. -/
theorem exists_token_writeMember {x : Member} (hx : x.1.kind.IsFinite x.2) (done : List Token)
    {rest : Bytes} (hr : EndsNumber rest) :
    ∃ t, Token.scanAll done (writeMember x ++ rest) =
        Token.scanAll (t :: .colon :: Token.ofText x.1.name :: done) rest ∧
      x.1.kind.ofToken? t = some x.2 := by
  obtain ⟨t, ht, hv⟩ := exists_token_write hx (.colon :: Token.ofText x.1.name :: done) hr
  refine ⟨t, ?_, hv⟩
  rw [writeMember, writeField, List.append_assoc, Token.scanAll_quote, List.cons_append,
    Token.scanAll_mark (t := .colon) rfl, ht]

/-- The reader takes a member that it has not seen off the front. -/
theorem readMember_eq_some {p : Partial} {x : Member} {t : Token} {rest : List Token}
    (hk : x.1 ∉ p.seen) (ht : x.1.kind.ofToken? t = some x.2) :
    readMember p x.1.name (t :: rest) =
      some (⟨x.1 :: p.seen, p.fields.setMember x⟩, rest) := by
  simp only [readMember, Key.ofName?_name, if_neg hk, setToken?_eq_some ht, Option.map_some]
  rfl

theorem readMembers_comma {p : Partial} {x : Member} {t : Token} {rest : List Token}
    (hk : x.1 ∉ p.seen) (ht : x.1.kind.ofToken? t = some x.2) :
    readMembers p (Token.ofText x.1.name :: .colon :: t :: .comma :: rest) =
      readMembers ⟨x.1 :: p.seen, p.fields.setMember x⟩ rest := by
  have h : readMember p x.1.name (t :: .comma :: rest) = _ := readMember_eq_some hk ht
  rw [Token.ofText, readMembers]
  simp only [Json.ofParts?_map_partOf]
  split
  · rename_i h'
    rw [h] at h'
    cases h'
    rfl
  · rename_i h'
    rw [h] at h'
    cases h'
  · rename_i h' _
    exact absurd h (h' _ _)

theorem readMembers_closeBrace {p : Partial} {x : Member} {t : Token}
    (hk : x.1 ∉ p.seen) (ht : x.1.kind.ofToken? t = some x.2) :
    readMembers p [Token.ofText x.1.name, .colon, t, .closeBrace] =
      some (p.fields.setMember x) := by
  have h : readMember p x.1.name [t, .closeBrace] = _ := readMember_eq_some hk ht
  rw [Token.ofText, readMembers]
  simp only [Json.ofParts?_map_partOf]
  split
  · rename_i h'
    rw [h] at h'
    cases h'
  · rename_i h'
    rw [h] at h'
    cases h'
    rfl
  · rename_i h'
    exact absurd h (h' _)

theorem endsAt_comma : Json.EndsAt 0x2C := by
  decide

theorem endsAt_closeBrace : Json.EndsAt 0x7D := by
  decide

/-- Members up to the end of the object are cut into tokens, from which the reader sets
them one after the other. -/
theorem exists_tokens_members {x : Member} {xs : List Member}
    (hn : ((x :: xs).map Sigma.fst).Nodup) (hf : ∀ y ∈ x :: xs, y.1.kind.IsFinite y.2)
    (done : List Token) {p : Partial} (hp : ∀ y ∈ x :: xs, y.1 ∉ p.seen) :
    ∃ ts, Token.scanAll done ([0x2C].intercalate ((x :: xs).map writeMember) ++ [0x7D]) =
        some (done.reverse ++ Token.ofText x.1.name :: ts) ∧
      readMembers p (Token.ofText x.1.name :: ts) =
        some ((x :: xs).foldl setMember p.fields) := by
  have hx : x.1 ∉ p.seen := hp x List.mem_cons_self
  induction xs generalizing x done p with
  | nil =>
    obtain ⟨t, ht, hv⟩ := exists_token_writeMember (hf x List.mem_cons_self) done
      (Json.endsNumber_cons endsAt_closeBrace : EndsNumber [0x7D])
    refine ⟨[.colon, t, .closeBrace], ?_, readMembers_closeBrace hx hv⟩
    rw [List.map_singleton, List.intercalate_singleton, ht,
      Token.scanAll_mark (t := .closeBrace) rfl, Token.scanAll_nil]
    simp
  | cons y ys ih =>
    rw [List.map_cons, List.nodup_cons] at hn
    rw [List.forall_mem_cons] at hf hp
    generalize hw : [0x2C].intercalate ((y :: ys).map writeMember) ++ [0x7D] = more
    obtain ⟨t, ht, hv⟩ := exists_token_writeMember hf.1 done
      (Json.endsNumber_cons endsAt_comma : EndsNumber (0x2C :: more))
    have hp' : ∀ z ∈ y :: ys, z.1 ∉ x.1 :: p.seen := by
      intro z hz
      rw [List.mem_cons, not_or]
      exact ⟨fun h => hn.1 (h ▸ List.mem_map_of_mem hz), hp.2 z hz⟩
    obtain ⟨ts, hs, hr⟩ := ih (p := ⟨x.1 :: p.seen, p.fields.setMember x⟩) hn.2 hf.2
      (.comma :: t :: .colon :: Token.ofText x.1.name :: done) hp' (hp' y List.mem_cons_self)
    refine ⟨.colon :: t :: .comma :: Token.ofText y.1.name :: ts, ?_, ?_⟩
    · have hb : [0x2C].intercalate ((x :: y :: ys).map writeMember) ++ [0x7D] =
          writeMember x ++ 0x2C :: more := by
        rw [← hw]
        simp [List.intercalate_cons_cons]
      rw [hb, ht, Token.scanAll_mark (t := .comma) rfl, ← hw, hs]
      simp
    · rw [readMembers_comma hx hv, hr]
      rfl

/-! ### Metadata -/

theorem write_eq (m : Metadata) :
    m.write = 0x7B :: ([0x2C].intercalate (m.members.map writeMember) ++ [0x7D]) := by
  rw [write, writeFields_eq]
  rfl

theorem read?_write {m : Metadata} (h : m.notFinite? = none) : read? m.write = some m := by
  have hf : ∀ y ∈ m.members, y.1.kind.IsFinite y.2 := fun y hy =>
    isFinite_of_get h (mem_members_iff.1 hy)
  have hn := nodup_keys_members m
  have hm := foldl_setMember_members m
  rw [read?, Token.ofBytes?, write_eq, Token.scanAll_mark (t := .openBrace) rfl]
  cases hx : m.members with
  | nil =>
    rw [hx] at hm
    rw [List.map_nil, List.intercalate_nil, List.nil_append,
      Token.scanAll_mark (t := .closeBrace) rfl, Token.scanAll_nil]
    exact congrArg some hm
  | cons x xs =>
    rw [hx] at hf hn hm
    obtain ⟨ts, hs, hr⟩ := exists_tokens_members (p := ⟨[], empty⟩) hn hf [.openBrace]
      fun y _ => List.not_mem_nil
    rw [hs, ← hm, ← hr]
    rfl

theorem encode_eq_ok_iff {m : Metadata} {bytes : Bytes} :
    m.encode = .ok bytes ↔ m.notFinite? = none ∧ m.write = bytes := by
  unfold encode
  split
  · simp [*]
  · simp [*]

theorem encode_eq_error_iff {m : Metadata} {e : PacketError} :
    m.encode = .error e ↔ ∃ key, m.notFinite? = some key ∧ .notFinite key = e := by
  unfold encode
  split
  · simp [*]
  · simp [*]

/-- **Metadata are read back** from the field that they are written as. -/
theorem decode_of_encode {m : Metadata} {bytes : Bytes} (h : m.encode = .ok bytes) :
    decode bytes = .ok m := by
  obtain ⟨hf, rfl⟩ := encode_eq_ok_iff.1 h
  simp only [decode, read?_write hf]

end LoraRelay.Metadata
