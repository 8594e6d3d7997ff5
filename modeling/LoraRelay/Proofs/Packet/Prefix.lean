import LoraRelay.Proofs.Packet.Failure
import LoraRelay.Proofs.Packet.Hops

/-!
# No packet begins another

Bytes that are cut short, or to which others are added, are never a packet of the same
kind. So a receiver who got too little or too much finds out, wherever the cut is and
whatever was added.

## The model

A kind of packets has a shape (`PacketKind.shape`): so many fields, and for accept packets
sixteen raw bytes. Nothing but the fields themselves and that number says where a part
ends, but this is enough: in a string that begins with parts of a shape they end at one
place only (`Piece.encodeAll_append_inj`, by the parts one after the other). Within the
list of entries of an application packet the shape is not fixed; it does not have to be,
as the list is the content of a field.

## What is proved

* `Packet.exists_pieces_of_decode` — what is accepted has the shape of its kind.
* `Packet.truncated_or_extended_is_refused` — it is no packet with bytes missing at its end
  or with more bytes behind it, and the error is structural.
-/

namespace LoraRelay

/-! ### Parts of a known shape -/

namespace Piece

/-- What is known of a part before it is read. -/
inductive Shape where
  /-- It is a field, of any length. -/
  | field
  /-- It is raw bytes, so many. -/
  | raw (n : Nat)

/-- The part has a shape. -/
inductive HasShape : Shape → Piece → Prop where
  /-- A field. -/
  | field (content : Bytes) : HasShape .field (.field content)
  /-- Raw bytes. -/
  | raw {n : Nat} {bytes : Bytes} : bytes.length = n → HasShape (.raw n) (.raw bytes)

/-- Parts of one shape in front of two equal strings are equal, and so is what follows. -/
theorem encode_append_inj {s : Shape} {p q : Piece} (hp : HasShape s p) (hq : HasShape s q)
    {a b x y : Bytes} (ha : p.encode = .ok a) (hb : q.encode = .ok b) (h : a ++ x = b ++ y) :
    p = q ∧ x = y := by
  cases hp with
  | field content =>
    cases hq with
    | field content' =>
      have hx := Field.read_encode ha x
      rw [h, Field.read_encode hb y] at hx
      cases hx
      exact ⟨rfl, rfl⟩
  | raw hl =>
    cases hq with
    | raw hl' =>
      cases ha
      cases hb
      obtain ⟨rfl, rfl⟩ := List.append_inj h (hl.trans hl'.symm)
      exact ⟨rfl, rfl⟩

/-- **Parts of known shapes end at one place**: two sequences of such parts in front of equal
strings are equal, and so is what follows. -/
theorem encodeAll_append_inj {shape : List Shape} {ps qs : List Piece}
    (hp : List.Forall₂ HasShape shape ps) (hq : List.Forall₂ HasShape shape qs) {a b x y : Bytes}
    (ha : encodeAll ps = .ok a) (hb : encodeAll qs = .ok b) (h : a ++ x = b ++ y) :
    ps = qs ∧ x = y := by
  induction hp generalizing qs a b with
  | nil =>
    cases hq
    cases ha
    cases hb
    exact ⟨rfl, h⟩
  | cons hp _ ih =>
    cases hq with
    | cons hq hqs =>
      simp only [encodeAll, bind_eq_ok_iff, pure_eq_ok_iff] at ha hb
      obtain ⟨a₁, ha₁, a₂, ha₂, rfl⟩ := ha
      obtain ⟨b₁, hb₁, b₂, hb₂, rfl⟩ := hb
      rw [List.append_assoc, List.append_assoc] at h
      obtain ⟨rfl, h⟩ := encode_append_inj hp hq ha₁ hb₁ h
      obtain ⟨rfl, hxy⟩ := ih hqs ha₂ hb₂ h
      exact ⟨rfl, hxy⟩

end Piece

/-! ### Packets -/

/-- The parts of a packet. -/
def PacketKind.shape : PacketKind → List Piece.Shape
  | router | broker | join => [.field, .field, .field]
  | handler => [.field, .field, .field, .field]
  | application => [.field, .field]
  | accept => [.field, .field, .field, .raw 16]

theorem Carrier.hasShape_pieces (c : Carrier) :
    List.Forall₂ Piece.HasShape [.field, .field, .field] c.pieces :=
  .cons (.field _) (.cons (.field _) (.cons (.field _) .nil))

namespace Packet

variable {bytes : Bytes} {kind : PacketKind} {p : Packet}

/-- **What is accepted has the shape of its kind.** -/
theorem exists_pieces_of_decode (h : decode bytes kind = .ok p) :
    ∃ ps, List.Forall₂ Piece.HasShape kind.shape ps ∧ Piece.encodeAll ps = .ok bytes := by
  cases kind with
  | router =>
    obtain ⟨p, hp, rfl⟩ := map_eq_ok_iff.1 h
    obtain ⟨_, _, _, _, _, hb, -⟩ := RouterPacket.decode_eq_ok_iff.1 hp
    exact ⟨_, .cons (.field _) (.cons (.field _) (.cons (.field _) .nil)), hb⟩
  | broker =>
    obtain ⟨b, hb, rfl⟩ := map_eq_ok_iff.1 h
    obtain ⟨_, _, _, _, _, hb, -⟩ :=
      RouterPacket.decode_eq_ok_iff.1 (BrokerPacket.decode_eq_ok_iff.1 hb).1
    exact ⟨_, .cons (.field _) (.cons (.field _) (.cons (.field _) .nil)), hb⟩
  | handler =>
    obtain ⟨p, hp, rfl⟩ := map_eq_ok_iff.1 h
    obtain ⟨_, -, hb⟩ := HandlerPacket.decode_eq_ok_iff.1 hp
    exact ⟨_, List.rel_append p.carrier.hasShape_pieces (.cons (.field _) .nil), hb⟩
  | application =>
    obtain ⟨p, hp, rfl⟩ := map_eq_ok_iff.1 h
    obtain ⟨_, -, -, hb⟩ := ApplicationPacket.decode_eq_ok_iff.1 hp
    exact ⟨_, .cons (.field _) (.cons (.field _) .nil), hb⟩
  | join =>
    obtain ⟨p, hp, rfl⟩ := map_eq_ok_iff.1 h
    have hb := (JoinPacket.decode_eq_ok_iff.1 hp).2
    exact ⟨_, p.carrier.hasShape_pieces, Piece.assemble_eq_ok_iff.1 hb⟩
  | accept =>
    obtain ⟨p, hp, rfl⟩ := map_eq_ok_iff.1 h
    have hb := (AcceptPacket.decode_eq_ok_iff.1 hp).2
    exact ⟨_, List.rel_append p.carrier.hasShape_pieces
      (.cons (.raw p.sessionKey.bytes.length_toList) .nil), Piece.assemble_eq_ok_iff.1 hb⟩

theorem eq_nil_of_decode_append {more : Bytes} {q : Packet} (h : decode bytes kind = .ok p)
    (hm : decode (bytes ++ more) kind = .ok q) : more = [] := by
  obtain ⟨ps, hps, hb⟩ := exists_pieces_of_decode h
  obtain ⟨qs, hqs, hbm⟩ := exists_pieces_of_decode hm
  exact (Piece.encodeAll_append_inj hps hqs hb hbm (List.append_nil _).symm).2

theorem exists_structural_error (h : ∀ p, decode bytes kind ≠ .ok p) :
    ∃ e, decode bytes kind = .error e ∧ e.kind = .structural := by
  cases hd : decode bytes kind with
  | ok p => exact absurd hd (h p)
  | error e => exact ⟨e, rfl, failsStructurally_decode bytes kind e hd⟩

/-- **No packet begins another of its kind.** Bytes that are accepted do not begin others that
are; with bytes missing at their end, or with more bytes behind them, they are refused with a
structural error. -/
theorem truncated_or_extended_is_refused (kind : PacketKind) :
    (∀ a b p q, decode a kind = .ok p → decode b kind = .ok q → ¬ (a <+: b ∧ a ≠ b)) ∧
    ∀ a p, decode a kind = .ok p →
      (∀ b, b <+: a → b ≠ a → ∃ e, decode b kind = .error e ∧ e.kind = .structural) ∧
      ∀ more, more ≠ [] → ∃ e, decode (a ++ more) kind = .error e ∧ e.kind = .structural := by
  have key : ∀ a b p q, decode a kind = .ok p → decode b kind = .ok q → a <+: b → a = b := by
    rintro a _ p q ha hb ⟨more, rfl⟩
    rw [eq_nil_of_decode_append ha hb, List.append_nil]
  refine ⟨fun a b p q ha hb ⟨hp, hn⟩ => hn (key a b p q ha hb hp), fun a p ha => ⟨?_, ?_⟩⟩
  · intro b hp hn
    exact exists_structural_error fun q hb => hn (key b a q p hb ha hp)
  · intro more hn
    exact exists_structural_error fun q hb => hn (eq_nil_of_decode_append ha hb)

/-- An accept packet without the last byte of its key, and one with a byte more. -/
theorem truncated_or_extended_is_refused_accept :
    let front : Bytes :=
      [0, 8, 0, 8, 0, 8, 0, 8, 0, 8, 0, 8, 0, 0, 0, 0, 0x26, 0x01, 0x1B, 0xDA, 0, 2, 0, 1]
    let key : Bytes := [0, 14, 1, 2, 3, 4, 5, 6, 7, 8, 9, 10, 11, 12, 13]
    let p : AcceptPacket :=
      ⟨⟨⟨⟨[0, 8, 0, 8, 0, 8, 0, 8], rfl⟩⟩, ⟨⟨[0, 0, 0, 0, 0x26, 0x01, 0x1B, 0xDA], rfl⟩⟩, [0, 1]⟩,
        ⟨⟨[0, 14, 1, 2, 3, 4, 5, 6, 7, 8, 9, 10, 11, 12, 13, 14], rfl⟩⟩⟩
    decode (front ++ key ++ [14]) .accept = .ok (.accept p) ∧
      front ++ key <+: front ++ key ++ [14] ∧
      (∃ e, decode (front ++ key) .accept = .error e ∧ e.kind = .structural) ∧
      ∃ e, decode (front ++ key ++ [14] ++ [0]) .accept = .error e ∧ e.kind = .structural := by
  intro front key p
  have hd : decode (front ++ key ++ [14]) .accept = .ok (.accept p) := by decide +kernel
  have hp : front ++ key <+: front ++ key ++ [14] := List.prefix_append _ _
  obtain ⟨-, h⟩ := truncated_or_extended_is_refused .accept
  obtain ⟨hcut, hmore⟩ := h _ _ hd
  exact ⟨hd, hp, hcut _ hp (by decide), hmore [0] (by decide)⟩

end Packet

end LoraRelay
