import LoraRelay.Proofs.Packet.Hops
import LoraRelay.Proofs.Position.Join

/-!
# What holds of every packet

A packet is made of its parts, of a frame, or of bytes. Some of the ways check the parts,
others put the packet together themselves, and a broker packet trusts the router packet
that it is made of. A router packet may be narrowed and widened again, or taken apart and
made anew. Here is what holds of a packet whichever way it came, any number of such steps
later.

## The model

`Packet.Made` are the ways to make a packet, `Packet.Converts` the ways to get a packet from
another, and `Packet.Obtainable` are the packets that come of one of the first and any number
of the second. `Packet.WellFormed` is the invariant. It is just what the constructors check
(`Packet.remake_eq_ok_iff`), so that a packet can be made anew of its parts exactly if it has
the invariant; this leaves to be seen that no other way makes a packet without it.

Join packets hold a nonce of two bytes by their type. With the nonce as the payload
of a carrier they have an invariant, too (`JoinPacket.Held.Obtainable`).

## What is proved

* `Packet.Made.wellFormed` and `Packet.WellFormed.of_converts` — the ways to make a packet, and
  one step from packet to packet.
* `Packet.Obtainable.wellFormed` — all packets.
* `Packet.sound_however_made` — the invariant, and the packet made anew of its parts.
-/

namespace LoraRelay

open Positional

/-! ### Router packets -/

/-- What holds of a router packet. -/
structure RouterPacket.WellFormed (p : RouterPacket) : Prop where
  /-- It is not a message of the join procedure. -/
  not_join : p.messageType ≠ .joinRequest ∧ p.messageType ≠ .joinAccept
  /-- The counter fits its two bytes. -/
  counter_le : p.payload.header.counter.toNat ≤ 65535
  /-- A data frame can be sent. -/
  sendable : p.messageType.isData = true → ∃ sent, p.frame.encode = .ok sent

theorem MessageType.isJoin_eq_false_iff {m : MessageType} :
    m.isJoin = false ↔ m ≠ .joinRequest ∧ m ≠ .joinAccept := by
  cases m <;> simp [isJoin]

namespace RouterPacket

variable {f : Frame} {m : Metadata} {p : RouterPacket}

/-- **What the constructor checks** is what holds of a router packet. -/
theorem ofFrame_frame_eq_ok_iff : ofFrame p.frame p.metadata = .ok p ↔ p.WellFormed := by
  rw [ofFrame_eq_ok_iff, counterFits_frame]
  constructor
  · rintro ⟨hs, hj, hc, -, -⟩
    exact ⟨MessageType.isJoin_eq_false_iff.1 hj, UInt32.le_iff_toNat_le.1 hc, hs⟩
  · rintro ⟨hj, hc, hs⟩
    exact ⟨hs, MessageType.isJoin_eq_false_iff.2 hj, UInt32.le_iff_toNat_le.2 hc, rfl, rfl⟩

theorem wellFormed_of_ofFrame (h : ofFrame f m = .ok p) : p.WellFormed := by
  obtain ⟨rfl, rfl⟩ := frame_of_ofFrame h
  exact ofFrame_frame_eq_ok_iff.1 h

end RouterPacket

/-! ### Broker packets -/

/-- What holds of a broker packet. -/
structure BrokerPacket.WellFormed (b : BrokerPacket) : Prop where
  /-- It is a router packet. -/
  router : b.router.WellFormed
  /-- There is one block of data, which is not empty and is what the packet carries. -/
  one_block : ∃ data, b.router.payload.items = [.data data] ∧ data ≠ [] ∧ b.payload = data
  /-- The data are sent to an application. -/
  on_port : ∃ port, b.router.payload.port = some port ∧ 1 ≤ port.toNat ∧ port.toNat ≤ 255

namespace BrokerPacket

variable {f : Frame} {m : Metadata} {p : RouterPacket} {b : BrokerPacket}

/-- **What narrowing checks** is what holds of a broker packet besides. -/
theorem ofRouter_router_eq_ok_iff :
    b.router.WellFormed ∧ ofRouter b.router = .ok b ↔ b.WellFormed := by
  rw [ofRouter_eq_ok_iff]
  constructor
  · rintro ⟨hr, ⟨data, hi, hn⟩, ⟨port, hp, hz⟩, -⟩
    have hz : port.toNat ≠ 0 := fun h => hz (UInt8.toNat_inj.1 h)
    exact ⟨hr, ⟨data, hi, hn, payload_eq hi⟩,
      port, hp, Nat.one_le_iff_ne_zero.2 hz, Nat.le_of_lt_succ port.toNat_lt⟩
  · rintro ⟨hr, ⟨data, hi, hn, -⟩, port, hp, hz, -⟩
    refine ⟨hr, ⟨data, hi, hn⟩, ⟨port, hp, ?_⟩, rfl⟩
    rintro rfl
    exact absurd hz (by decide)

/-- **What the constructor checks** is what holds of a broker packet. -/
theorem ofFrame_frame_eq_ok_iff :
    ofFrame b.router.frame b.router.metadata = .ok b ↔ b.WellFormed := by
  rw [ofFrame_eq_ok_iff, RouterPacket.ofFrame_frame_eq_ok_iff, ofRouter_router_eq_ok_iff]

theorem wellFormed_of_ofRouter (hp : p.WellFormed) (h : ofRouter p = .ok b) : b.WellFormed := by
  obtain rfl := router_of_ofRouter h
  exact ofRouter_router_eq_ok_iff.1 ⟨hp, h⟩

theorem wellFormed_of_ofFrame (h : ofFrame f m = .ok b) : b.WellFormed := by
  obtain ⟨hp, hb⟩ := ofFrame_eq_ok_iff.1 h
  exact wellFormed_of_ofRouter (RouterPacket.wellFormed_of_ofFrame hp) hb

end BrokerPacket

/-! ### Accept packets -/

theorem AcceptPacket.payload_ne_nil_of_ofFrame {f : Frame} {appEui devEui : Eui} {key : Key}
    {p : AcceptPacket} (h : ofFrame f appEui devEui key = .ok p) : p.carrier.payload ≠ [] := by
  unfold ofFrame at h
  split at h
  · obtain ⟨bytes, -, hm⟩ := bind_eq_ok_iff.1 h
    obtain ⟨hn, rfl⟩ := make_eq_ok_iff.1 hm
    exact hn
  · cases h

/-! ### Join packets with the nonce as a payload -/

namespace JoinPacket.Held

/-- The join packets that can be made: of their parts, of a frame, or of bytes. -/
inductive Obtainable : Held → Prop where
  /-- A packet of given parts. -/
  | made (appEui devEui : Eui) (nonce : Octets 2) (metadata : Metadata) :
      Obtainable (make appEui devEui nonce metadata)
  /-- The packet of a frame. -/
  | ofFrame {f : Frame} {metadata : Metadata} {q : Held} (h : Held.ofFrame f metadata = .ok q) :
      Obtainable q
  /-- A packet that was read. -/
  | decoded {bytes : Bytes} {q : Held} (h : decode bytes = .ok q) : Obtainable q

/-- A packet made anew of its identifiers, the nonce that is looked up in it, and its
metadata. -/
def remake (q : Held) : Positional PacketError Held := do
  return make q.carrier.appEui q.carrier.devEui (← q.devNonce) q.metadata

variable {q : Held}

/-- Every join packet that can be made is the spelling of one with two bytes of nonce. -/
theorem Obtainable.exists_held_eq (h : Obtainable q) : ∃ p : JoinPacket, p.held = q := by
  cases h with
  | made appEui devEui nonce metadata => exact ⟨⟨appEui, devEui, nonce, metadata⟩, rfl⟩
  | ofFrame h =>
    rw [ofFrame_eq] at h
    obtain ⟨p, -, hp⟩ := map_eq_ok_iff.1 h
    exact ⟨p, hp⟩
  | decoded h =>
    rw [decode_eq] at h
    obtain ⟨p, -, hp⟩ := map_eq_ok_iff.1 h
    exact ⟨p, hp⟩

theorem remake_held (p : JoinPacket) : p.held.remake = inside (.ok p.held) := by
  rw [remake, devNonce_held]
  rfl

end JoinPacket.Held

/-! ### Packets of all kinds -/

namespace Packet

/-- The ways to make a packet of other things: its parts, a frame, or bytes. -/
inductive Made : Packet → Prop where
  /-- The router packet of a frame. -/
  | routerOfFrame {f : Frame} {m : Metadata} {p : RouterPacket}
      (h : RouterPacket.ofFrame f m = .ok p) : Made (.router p)
  /-- The broker packet of a frame. -/
  | brokerOfFrame {f : Frame} {m : Metadata} {b : BrokerPacket}
      (h : BrokerPacket.ofFrame f m = .ok b) : Made (.broker b)
  /-- A handler packet of given parts, of which none is checked. -/
  | handler (carrier : Carrier) (m : Metadata) : Made (.handler ⟨carrier, m⟩)
  /-- An application packet of given parts. -/
  | application {payload : Bytes} {ms : List Metadata} {p : ApplicationPacket}
      (h : ApplicationPacket.make payload ms = .ok p) : Made (.application p)
  /-- A join packet of given parts. -/
  | join (appEui devEui : Eui) (nonce : Octets 2) (m : Metadata) :
      Made (.join ⟨appEui, devEui, nonce, m⟩)
  /-- The join packet of a frame. -/
  | joinOfFrame {f : Frame} {m : Metadata} {p : JoinPacket} (h : JoinPacket.ofFrame f m = .ok p) :
      Made (.join p)
  /-- An accept packet of given parts. -/
  | accept {carrier : Carrier} {key : Key} {p : AcceptPacket}
      (h : AcceptPacket.make carrier key = .ok p) : Made (.accept p)
  /-- The accept packet of a frame. -/
  | acceptOfFrame {f : Frame} {appEui devEui : Eui} {key : Key} {p : AcceptPacket}
      (h : AcceptPacket.ofFrame f appEui devEui key = .ok p) : Made (.accept p)
  /-- A packet that was read. -/
  | decoded {bytes : Bytes} {kind : PacketKind} {p : Packet} (h : decode bytes kind = .ok p) :
      Made p

/-- The ways to get a packet from another. -/
inductive Converts : Packet → Packet → Prop where
  /-- A router packet is narrowed to a broker packet. -/
  | narrow {p : RouterPacket} {b : BrokerPacket} (h : BrokerPacket.ofRouter p = .ok b) :
      Converts (.router p) (.broker b)
  /-- A broker packet is widened to a router packet. -/
  | widen (b : BrokerPacket) : Converts (.broker b) (.router b.router)
  /-- The parts of a router packet are made a router packet again. -/
  | routerOfParts {p q : RouterPacket} (h : RouterPacket.ofFrame p.frame p.metadata = .ok q) :
      Converts (.router p) (.router q)
  /-- The parts of a router packet are made a broker packet. -/
  | brokerOfParts {p : RouterPacket} {b : BrokerPacket}
      (h : BrokerPacket.ofFrame p.frame p.metadata = .ok b) : Converts (.router p) (.broker b)

/-- The packets that can be had: they were made, or got from others in any number of
steps. -/
inductive Obtainable : Packet → Prop where
  /-- A packet that was made. -/
  | made {p : Packet} (h : Made p) : Obtainable p
  /-- A packet that was got from another. -/
  | converted {p q : Packet} (hp : Obtainable p) (h : Converts p q) : Obtainable q

/-- What holds of a packet of each kind. -/
def WellFormed : Packet → Prop
  | router p => p.WellFormed
  | broker b => b.WellFormed
  | handler _ => True
  | application p => p.payload ≠ []
  | join p => p.carrier.payload.length = 2
  | accept p => p.carrier.payload ≠ []

/-- A packet made anew: its parts are passed back to its constructor. -/
def remake : Packet → Except PacketError Packet
  | router p => (RouterPacket.ofFrame p.frame p.metadata).map router
  | broker b => (BrokerPacket.ofFrame b.router.frame b.router.metadata).map broker
  | handler p => .ok (handler ⟨p.carrier, p.metadata⟩)
  | application p => (ApplicationPacket.make p.payload p.metadata).map application
  | join p => .ok (join ⟨p.appEui, p.devEui, p.devNonce, p.metadata⟩)
  | accept p => (AcceptPacket.make p.carrier p.sessionKey).map accept

variable {p q : Packet}

/-- **The constructors check just the invariant**: a packet is what its parts make if and
only if it has what holds of its kind. -/
theorem remake_eq_ok_iff : p.remake = .ok p ↔ p.WellFormed := by
  cases p with
  | router p => simp [remake, WellFormed, map_eq_ok_iff, RouterPacket.ofFrame_frame_eq_ok_iff]
  | broker b => simp [remake, WellFormed, map_eq_ok_iff, BrokerPacket.ofFrame_frame_eq_ok_iff]
  | handler p => simp [remake, WellFormed]
  | application p => simp [remake, WellFormed, map_eq_ok_iff, ApplicationPacket.make_eq_ok_iff]
  | join p => exact iff_of_true rfl p.devNonce.length_toList
  | accept p => simp [remake, WellFormed, map_eq_ok_iff, AcceptPacket.make_eq_ok_iff]

/-- A packet that was read is well-formed, also where the decoder puts it together itself. -/
theorem wellFormed_of_decode {bytes : Bytes} {kind : PacketKind} (h : decode bytes kind = .ok p) :
    p.WellFormed := by
  cases kind with
  | router =>
    obtain ⟨p, hp, rfl⟩ := map_eq_ok_iff.1 h
    exact RouterPacket.wellFormed_of_ofFrame (RouterPacket.ofFrame_of_decode hp).1
  | broker =>
    obtain ⟨b, hb, rfl⟩ := map_eq_ok_iff.1 h
    obtain ⟨hp, hb⟩ := BrokerPacket.decode_eq_ok_iff.1 hb
    have hp := RouterPacket.wellFormed_of_ofFrame (RouterPacket.ofFrame_of_decode hp).1
    exact BrokerPacket.wellFormed_of_ofRouter hp hb
  | handler =>
    obtain ⟨p, -, rfl⟩ := map_eq_ok_iff.1 h
    trivial
  | application =>
    obtain ⟨p, hp, rfl⟩ := map_eq_ok_iff.1 h
    obtain ⟨_, hn, -⟩ := ApplicationPacket.decode_eq_ok_iff.1 hp
    exact hn
  | join =>
    obtain ⟨p, -, rfl⟩ := map_eq_ok_iff.1 h
    exact p.devNonce.length_toList
  | accept =>
    obtain ⟨p, hp, rfl⟩ := map_eq_ok_iff.1 h
    exact (AcceptPacket.decode_eq_ok_iff.1 hp).1

theorem Made.wellFormed (h : Made p) : p.WellFormed := by
  cases h with
  | routerOfFrame h => exact RouterPacket.wellFormed_of_ofFrame h
  | brokerOfFrame h => exact BrokerPacket.wellFormed_of_ofFrame h
  | handler carrier m => trivial
  | application h =>
    obtain ⟨hn, rfl⟩ := ApplicationPacket.make_eq_ok_iff.1 h
    exact hn
  | join appEui devEui nonce m => exact nonce.length_toList
  | @joinOfFrame f m p h => exact p.devNonce.length_toList
  | accept h =>
    obtain ⟨hn, rfl⟩ := AcceptPacket.make_eq_ok_iff.1 h
    exact hn
  | acceptOfFrame h => exact AcceptPacket.payload_ne_nil_of_ofFrame h
  | decoded h => exact wellFormed_of_decode h

/-- A step from packet to packet keeps the invariant. -/
theorem WellFormed.of_converts (hp : p.WellFormed) (h : Converts p q) : q.WellFormed := by
  cases h with
  | narrow h => exact BrokerPacket.wellFormed_of_ofRouter hp h
  | widen b => exact BrokerPacket.WellFormed.router hp
  | routerOfParts h => exact RouterPacket.wellFormed_of_ofFrame h
  | brokerOfParts h => exact BrokerPacket.wellFormed_of_ofFrame h

theorem Obtainable.wellFormed (h : Obtainable p) : p.WellFormed := by
  induction h with
  | made h => exact h.wellFormed
  | converted _ h ih => exact ih.of_converts h

/-- **A packet is sound however it was made.** All packets that can be had by any number of
steps are well-formed, and each is what the constructor makes of its parts: a router packet
is no join message, its counter fits and its data frame can be sent; a broker packet has
one block of data besides, which it carries, and an application port; an application or
accept packet carries something. A join packet that carries its nonce as a payload carries
two bytes, so that the nonce is never looked up outside. -/
theorem sound_however_made :
    (∀ p : Packet, p.Obtainable → p.WellFormed ∧ p.remake = .ok p) ∧
      ∀ q : JoinPacket.Held, q.Obtainable →
        q.carrier.payload.length = 2 ∧ q.devNonce ≠ outside ∧ q.remake = inside (.ok q) := by
  constructor
  · intro p h
    exact ⟨h.wellFormed, remake_eq_ok_iff.2 h.wellFormed⟩
  · intro q h
    have hl := JoinPacket.Held.exists_held_eq_iff.1 h.exists_held_eq
    have hi := JoinPacket.Held.devNonce_ne_outside_iff.2 (Nat.le_of_eq hl.symm)
    obtain ⟨p, rfl⟩ := h.exists_held_eq
    exact ⟨hl, hi, JoinPacket.Held.remake_held p⟩

/-- A router packet that was read, taken apart to a broker packet, widened and narrowed
again, and a join packet that was read. -/
theorem sound_however_made_uplink :
    let b : BrokerPacket :=
      ⟨⟨.unconfirmedDataUp, ⟨⟨⟨⟨[0x26, 0x01, 0x1B, 0xDA], rfl⟩⟩, ⟨true, false, false, false⟩, 0x2A,
        [.linkCheckReq]⟩, some 1, [.data [0xCA, 0xFE]]⟩, ⟨[1, 2, 3, 4], rfl⟩, .empty⟩⟩
    let q : JoinPacket.Held :=
      ⟨⟨⟨⟨[1, 2, 3, 4, 5, 6, 7, 8], rfl⟩⟩, ⟨⟨[8, 7, 6, 5, 4, 3, 2, 1], rfl⟩⟩, [0xA1, 0xA2]⟩,
        .empty⟩
    (Packet.broker b).Obtainable ∧ b.WellFormed ∧ (Packet.broker b).remake = .ok (.broker b) ∧
      q.Obtainable ∧ q.devNonce ≠ outside ∧ q.remake = inside (.ok q) := by
  intro b q
  have hd : decode ([0, 1, 1, 0, 2] ++ ascii "\x7b\x7d" ++ [0, 16, 0x40, 0xDA, 0x1B, 0x01, 0x26,
      0x81, 0x2A, 0, 0x02, 1, 0xCA, 0xFE, 1, 2, 3, 4]) .router = .ok (.router b.router) := by
    decide +kernel
  have hf : BrokerPacket.ofFrame b.router.frame b.router.metadata = .ok b := by
    decide +kernel
  have hn : BrokerPacket.ofRouter b.router = .ok b := by
    decide +kernel
  have hj : JoinPacket.Held.decode [0, 8, 1, 2, 3, 4, 5, 6, 7, 8, 0, 8, 8, 7, 6, 5, 4, 3, 2, 1, 0, 2,
      0xA1, 0xA2] = .ok q := by
    decide +kernel
  have hb : (Packet.broker b).Obtainable :=
    .converted (.converted (.converted (.made (.decoded hd)) (.brokerOfParts hf)) (.widen b))
      (.narrow hn)
  have hq : q.Obtainable := .decoded hj
  obtain ⟨hw, hr⟩ := sound_however_made.1 _ hb
  obtain ⟨-, hi, hm⟩ := sound_however_made.2 q hq
  exact ⟨hb, hw, hr, hq, hi, hm⟩

end Packet

end LoraRelay
