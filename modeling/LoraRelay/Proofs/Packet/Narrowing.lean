import LoraRelay.Proofs.Frame.Domain
import LoraRelay.Proofs.Frame.Signing
import LoraRelay.Proofs.Packet.Obtainable

/-!
# Narrowing

A broker takes a router packet that holds data for an application. It looks at the elements
of the payload and at the port, and has an error for each way in which they can be wrong. For
a data frame two of these ways are closed: what cannot be sent is no router packet, and an
empty block of data cannot be sent, nor can data without a port or on port zero. Messages
without a direction were never encoded, so that they may hold anything. They are also the
ones for which there is no integrity code.

## The model

`DataPayload.IsApplication` asks for a port other than zero, and for something that is sent to
it. What this is, it does not say: the rest is up to the encoder (`DataPayload.Sendable`).

## What is proved

* `BrokerPacket.ofRouter_eq_error_iff` — why router packets are rejected, one by one.
* `BrokerPacket.exists_ofRouter_iff_of_sendable` and
  `BrokerPacket.ofRouter_eq_error_iff_of_sendable` — what is left of this for payloads that
  can be sent.
* `BrokerPacket.exists_validateMic_error_iff` — for which messages there is no code.
* `BrokerPacket.narrowing_loses_nothing` — packets that are narrowed, read and widened.
-/

namespace LoraRelay

/-! ### Payloads for an application -/

/-- Something is sent to an application: the port is not zero, and there are elements. -/
structure DataPayload.IsApplication (p : DataPayload) : Prop where
  /-- The port is one of an application. -/
  on_port : ∃ port, p.port = some port ∧ 0 < port
  /-- Something is sent to it. -/
  items_ne_nil : p.items ≠ []

namespace PortItem.Sendable

variable {d : Direction} {port : Option UInt8} {items : List PortItem} {data : Bytes}

/-- A block of data can only be sent to the port of an application, and only if it is not
empty. -/
theorem on_port_of_data (h : Sendable d port [.data data]) :
    data ≠ [] ∧ ∃ q, port = some q ∧ q ≠ 0 := by
  cases port with
  | none => cases h
  | some q =>
    by_cases hq : q = 0
    · rw [Sendable, if_pos hq] at h
      obtain ⟨c, hc, -⟩ := h _ (List.mem_singleton_self _)
      cases hc
    · rw [Sendable, if_neg hq] at h
      obtain hn | ⟨_, hn, hd⟩ := h
      · cases hn
      · cases hd
        exact ⟨hn, q, rfl, hq⟩

theorem exists_data {q : UInt8} (h : Sendable d (some q) items) (hq : q ≠ 0)
    (hn : items ≠ []) : ∃ data, items = [.data data] := by
  rw [Sendable, if_neg hq] at h
  obtain hi | ⟨data, -, hi⟩ := h
  · exact absurd hi hn
  · exact ⟨data, hi⟩

end PortItem.Sendable

/-- A payload that can be sent is for an application exactly if it is one block of data. -/
theorem DataPayload.Sendable.isApplication_iff {p : DataPayload} {d : Direction}
    (h : p.Sendable d) : p.IsApplication ↔ ∃ data, p.items = [.data data] := by
  have hi := h.items
  constructor
  · rintro ⟨⟨port, hp, hpos⟩, hn⟩
    rw [hp] at hi
    exact hi.exists_data (UInt8.pos_iff_ne_zero.1 hpos) hn
  · rintro ⟨data, hd⟩
    rw [hd] at hi
    obtain ⟨-, port, hp, hz⟩ := hi.on_port_of_data
    exact ⟨⟨port, hp, UInt8.pos_iff_ne_zero.2 hz⟩, by simp [hd]⟩

/-! ### Router packets that can be sent -/

namespace RouterPacket

variable {p : RouterPacket}

/-- A router packet that can be sent has a direction, in which its payload can be sent. -/
theorem sendable_of_encode_frame {sent : Bytes} (h : p.frame.encode = .ok sent) :
    ∃ d, p.messageType.direction? = some d ∧ p.payload.Sendable d := by
  obtain ⟨message, hs, -⟩ := Frame.encode_eq_ok_iff.1 h
  obtain ⟨body, hb, -, -⟩ := Frame.signed_eq_ok_iff.1 hs
  obtain ⟨d, hd⟩ := Frame.exists_direction_of_signed rfl hs
  have hd : p.messageType.direction? = some d := hd
  simp only [Frame.encodePayload, frame, Payload.encode, hd] at hb
  exact ⟨d, hd, DataPayload.exists_encode_iff.1 ⟨body, hb⟩⟩

theorem WellFormed.exists_sendable (hw : p.WellFormed) (hd : p.messageType.isData = true) :
    ∃ d, p.payload.Sendable d := by
  obtain ⟨sent, hs⟩ := hw.sendable hd
  obtain ⟨d, -, h⟩ := sendable_of_encode_frame hs
  exact ⟨d, h⟩

/-- A router packet that was read is a data packet, whose payload can be sent. -/
theorem exists_sendable_of_decode {bytes : Bytes} (h : decode bytes = .ok p) :
    p.messageType.isData = true ∧ ∃ d, p.payload.Sendable d := by
  obtain ⟨hf, hd, -⟩ := ofFrame_of_decode h
  exact ⟨hd, (wellFormed_of_ofFrame hf).exists_sendable hd⟩

theorem WellFormed.exists_encode_frame_iff (hw : p.WellFormed) :
    (∃ sent, p.frame.encode = .ok sent) ↔ p.messageType.isData = true := by
  constructor
  · rintro ⟨sent, hs⟩
    obtain ⟨d, hd, -⟩ := sendable_of_encode_frame hs
    exact MessageType.isData_of_direction? hd (MessageType.isJoin_eq_false_iff.2 hw.not_join)
  · exact hw.sendable

theorem WellFormed.isData_eq_false_iff (hw : p.WellFormed) :
    p.messageType.isData = false ↔
      p.messageType = .proprietary ∨ p.messageType = .rejoinRequest := by
  obtain ⟨hr, ha⟩ := hw.not_join
  revert hr ha
  cases p.messageType <;> simp [MessageType.isData]

end RouterPacket

/-! ### Narrowing -/

namespace BrokerPacket

variable {p : RouterPacket} {b : BrokerPacket} {d : Direction} {e : PacketError}

/-- **Why a router packet is rejected.** The elements are looked at before the port. -/
theorem ofRouter_eq_error_iff :
    ofRouter p = .error e ↔
      (p.payload.items.length ≠ 1 ∧ e = .notOneItem) ∨
      (∃ c, p.payload.items = [.command c] ∧ e = .notDataItem) ∨
      (p.payload.items = [.data []] ∧ e = .emptyDataItem) ∨
      ∃ data, p.payload.items = [.data data] ∧ data ≠ [] ∧
        (¬ ∃ port, p.payload.port = some port ∧ port ≠ 0) ∧ e = .noApplicationPort := by
  obtain ⟨m, ⟨header, port, items⟩, mic, metadata⟩ := p
  cases items with
  | nil => simp [ofRouter, eq_comm]
  | cons item rest =>
    cases rest with
    | cons => simp [ofRouter, eq_comm]
    | nil =>
      cases item with
      | command c => simp [ofRouter, eq_comm]
      | data data =>
        by_cases hn : data = []
        · simp [ofRouter, hn, eq_comm]
        · cases port with
          | none => simp [ofRouter, hn, eq_comm]
          | some port =>
            by_cases hz : port = 0
            · simp [ofRouter, hn, hz, eq_comm]
            · simp [ofRouter, hn, hz]

/-- A payload that can be sent is rejected for its elements only: the checks of the block of
data and of the port always succeed. -/
theorem ofRouter_eq_error_iff_of_sendable (h : p.payload.Sendable d) :
    ofRouter p = .error e ↔
      (p.payload.items.length ≠ 1 ∧ e = .notOneItem) ∨
      ∃ c, p.payload.items = [.command c] ∧ e = .notDataItem := by
  have hi := h.items
  rw [ofRouter_eq_error_iff]
  constructor
  · rintro (he | he | ⟨hd, -⟩ | ⟨data, hd, -, hp, -⟩)
    · exact .inl he
    · exact .inr he
    · -- the encoder would have refused the block, and in the next case the port
      rw [hd] at hi
      exact absurd rfl hi.on_port_of_data.1
    · rw [hd] at hi
      exact absurd hi.on_port_of_data.2 hp
  · rintro (he | he)
    · exact .inl he
    · exact .inr (.inl he)

theorem exists_ofRouter_iff_of_sendable (h : p.payload.Sendable d) :
    (∃ b, ofRouter p = .ok b) ↔ p.payload.IsApplication := by
  have hi := h.items
  simp only [ofRouter_eq_ok_iff]
  constructor
  · rintro ⟨_, ⟨data, hd, -⟩, -, -⟩
    exact h.isApplication_iff.2 ⟨data, hd⟩
  · intro ha
    obtain ⟨data, hd⟩ := h.isApplication_iff.1 ha
    rw [hd] at hi
    obtain ⟨hn, hp⟩ := hi.on_port_of_data
    exact ⟨⟨p⟩, ⟨data, hd, hn⟩, hp, rfl⟩

theorem exists_decode_iff {bytes : Bytes} :
    (∃ b, decode bytes = .ok b) ↔
      ∃ p, RouterPacket.decode bytes = .ok p ∧ p.messageType.isData = true ∧
        p.payload.IsApplication := by
  constructor
  · rintro ⟨b, hb⟩
    obtain ⟨hp, hb⟩ := decode_eq_ok_iff.1 hb
    obtain ⟨hd, _, hs⟩ := RouterPacket.exists_sendable_of_decode hp
    exact ⟨b.router, hp, hd, (exists_ofRouter_iff_of_sendable hs).1 ⟨b, hb⟩⟩
  · rintro ⟨p, hp, -, ha⟩
    obtain ⟨-, _, hs⟩ := RouterPacket.exists_sendable_of_decode hp
    obtain ⟨b, hb⟩ := (exists_ofRouter_iff_of_sendable hs).2 ha
    exact ⟨b, bind_eq_ok_iff.2 ⟨p, hp, hb⟩⟩

/-! ### Codes -/

/-- A code cannot be checked exactly if none is computed. -/
theorem exists_validateMic_error_iff_computeMic {key : Key} :
    (∃ e, b.validateMic key = .error e) ↔
      ¬ ∃ code, b.router.frame.computeMic key = .ok code := by
  rw [validateMic, Frame.validateMic]
  cases h : b.router.frame.computeMic key with
  | ok code =>
    refine iff_of_false ?_ (not_not.2 ⟨code, rfl⟩)
    rintro ⟨e, he⟩
    cases he
  | error e => exact iff_of_true ⟨.noMic e, rfl⟩ (by simp)

/-- **For which broker packets there is no code**: those of messages without a direction,
whatever the key is. -/
theorem exists_validateMic_error_iff (hw : b.router.WellFormed) (key : Key) :
    (∃ e, b.validateMic key = .error e) ↔
      b.router.messageType = .proprietary ∨ b.router.messageType = .rejoinRequest := by
  rw [← hw.isData_eq_false_iff, exists_validateMic_error_iff_computeMic,
    Frame.exists_computeMic_iff_encode, hw.exists_encode_frame_iff, ← Bool.not_eq_true]
  have hc : ∃ p, b.router.frame.payload = some p ∧ p.isCoded = true :=
    ⟨.data b.router.payload, rfl, rfl⟩
  exact not_congr (and_iff_left hc)

/-! ### Narrowing and widening -/

/-- **Narrowing and widening lose nothing, and nothing for an application is rejected.** A data
packet, however it was made, is narrowed exactly if it has a port greater than zero and
something is sent to it, and widening gives it back; the check for an empty block and that of
the port reject none. Bytes are read as a broker packet exactly if they are read as such a
router packet, which is the one that the broker packet holds. A broker packet, however it was
made, is what its router packet is narrowed to, and the check of its code fails exactly if it
is a message without a direction. -/
theorem narrowing_loses_nothing :
    (∀ p : RouterPacket, (Packet.router p).Obtainable → p.messageType.isData = true →
      ((∃ b, ofRouter p = .ok b) ↔ p.payload.IsApplication) ∧
      (∀ b, ofRouter p = .ok b → b.router = p) ∧
      ∀ e, ofRouter p = .error e → e ≠ .emptyDataItem ∧ e ≠ .noApplicationPort) ∧
    (∀ bytes : Bytes,
      ((∃ b, decode bytes = .ok b) ↔
        ∃ p, RouterPacket.decode bytes = .ok p ∧ p.messageType.isData = true ∧
          p.payload.IsApplication) ∧
      ∀ b, decode bytes = .ok b → RouterPacket.decode bytes = .ok b.router) ∧
    ∀ b : BrokerPacket, (Packet.broker b).Obtainable →
      ofRouter b.router = .ok b ∧
      ∀ key, (∃ e, b.validateMic key = .error e) ↔
        b.router.messageType = .proprietary ∨ b.router.messageType = .rejoinRequest := by
  refine ⟨?_, ?_, ?_⟩
  · intro p hp hd
    have hw : p.WellFormed := hp.wellFormed
    obtain ⟨d, hs⟩ := hw.exists_sendable hd
    refine ⟨exists_ofRouter_iff_of_sendable hs, fun b => router_of_ofRouter, ?_⟩
    intro e he
    obtain ⟨-, rfl⟩ | ⟨c, -, rfl⟩ := (ofRouter_eq_error_iff_of_sendable hs).1 he
    · exact ⟨nofun, nofun⟩
    · exact ⟨nofun, nofun⟩
  · intro bytes
    exact ⟨exists_decode_iff, fun b hb => (decode_eq_ok_iff.1 hb).1⟩
  · intro b hb
    have hw : b.WellFormed := hb.wellFormed
    exact ⟨(ofRouter_router_eq_ok_iff.2 hw).2, exists_validateMic_error_iff hw.router⟩

/-- Uplinks with data on port one and with commands on port zero, and data under a type without
direction. -/
theorem narrowing_loses_nothing_uplinks :
    let header : FrameHeader :=
      ⟨⟨⟨[0x26, 0x01, 0x1B, 0xDA], rfl⟩⟩, ⟨true, false, false, false⟩, 0x2A, [.linkCheckReq]⟩
    let app : RouterPacket :=
      ⟨.confirmedDataUp, ⟨header, some 1, [.data [0xCA, 0xFE]]⟩, ⟨[1, 2, 3, 4], rfl⟩, .empty⟩
    let mac : RouterPacket := { app with payload := ⟨header, some 0, [.command .linkCheckReq]⟩ }
    let own : BrokerPacket := ⟨{ app with messageType := .proprietary }⟩
    let bytes : Bytes :=
      [0, 1, 1, 0, 2] ++ ascii "\x7b\x7d" ++ [0, 16, 0x80, 0xDA, 0x1B, 0x01, 0x26, 0x81, 0x2A, 0,
        0x02, 1, 0xCA, 0xFE, 1, 2, 3, 4]
    (decode bytes = .ok ⟨app⟩ ∧ RouterPacket.decode bytes = .ok app) ∧
    ((Packet.router app).Obtainable ∧ ofRouter app = .ok ⟨app⟩ ∧ app.payload.IsApplication) ∧
    ((Packet.router mac).Obtainable ∧ ¬ mac.payload.IsApplication ∧
      ∃ e, ofRouter mac = .error e ∧ e ≠ .emptyDataItem ∧ e ≠ .noApplicationPort) ∧
    ((Packet.broker own).Obtainable ∧ ofRouter own.router = .ok own ∧
      ∀ key, ∃ e, own.validateMic key = .error e) := by
  intro header app mac own bytes
  obtain ⟨hnarrow, hread, hwiden⟩ := narrowing_loses_nothing
  have hbytes : decode bytes = .ok ⟨app⟩ := by
    decide +kernel
  have hrouter : RouterPacket.decode bytes = .ok app := (hread bytes).2 _ hbytes
  have hpacket : Packet.decode bytes .router = .ok (.router app) :=
    map_eq_ok_iff.2 ⟨app, hrouter, rfl⟩
  have happ : (Packet.router app).Obtainable := .made (.decoded hpacket)
  have hmade : RouterPacket.ofFrame mac.frame .empty = .ok mac := by
    decide +kernel
  have hmac : (Packet.router mac).Obtainable := .made (.routerOfFrame hmade)
  have hmade : BrokerPacket.ofFrame own.router.frame .empty = .ok own := by
    decide +kernel
  have hown : (Packet.broker own).Obtainable := .made (.brokerOfFrame hmade)
  obtain ⟨happ_iff, -, -⟩ := hnarrow app happ rfl
  obtain ⟨hmac_iff, -, hmac_error⟩ := hnarrow mac hmac rfl
  have hok : ofRouter app = .ok ⟨app⟩ := by
    decide +kernel
  have herr : ofRouter mac = .error .notDataItem := by
    decide +kernel
  obtain ⟨hback, hmic⟩ := hwiden own hown
  refine ⟨⟨hbytes, hrouter⟩, ⟨happ, hok, happ_iff.1 ⟨_, hok⟩⟩,
    ⟨hmac, ?_, _, herr, hmac_error _ herr⟩,
    ⟨hown, hback, fun key => (hmic key).2 (.inl rfl)⟩⟩
  intro hm
  obtain ⟨b, hb⟩ := hmac_iff.2 hm
  rw [herr] at hb
  cases hb

end BrokerPacket

end LoraRelay
