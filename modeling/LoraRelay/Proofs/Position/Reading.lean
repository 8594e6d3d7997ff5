import LoraRelay.Position.Reading
import LoraRelay.Proofs.Frame.Grammar
import LoraRelay.Proofs.Frame.Integrity
import LoraRelay.Proofs.Position.Basic

/-!
# Frames read by position

The readers by position look up what their lengths have been found to allow. Here they are
compared with the readers that match on lists.

## What is proved

For every reader `decode` there is a `decodeAt` that comes to the same and stays inside
(`decodeAt_eq`), whatever the bytes are. For commands this says that the table of lengths
and the positions in the bodies fit together, for each identifier and direction.
-/

namespace LoraRelay

open Positional

/-! ### Commands -/

namespace Command

/-- A body of the length that identifier and direction fix has all the positions that are
looked at. -/
theorem ofBodyAt_eq {id : CommandId} {d : Direction} {body : Bytes} {c : Command}
    (h : ofBody? id d body = some c) : ofBodyAt id d body = inside (.ok c) := by
  cases id <;> cases d <;> simp only [ofBody?] at h <;> split at h <;> cases h <;> rfl

theorem decodeOneAt_eq (d : Direction) (number : UInt8) (bytes : Bytes) :
    decodeOneAt d number bytes = inside (decodeOne d number bytes) := by
  cases hid : CommandId.ofNumber? number with
  | none =>
    simp only [decodeOneAt, decodeOne, hid]
    rfl
  | some id =>
    simp only [decodeOneAt, decodeOne, hid]
    by_cases hl : bytes.length < id.bodyLength d
    · rw [if_pos hl, ofBody?_take_of_lt hl]
      rfl
    · obtain ⟨c, hc⟩ := exists_ofBody?_of_length (List.length_take_of_le (Nat.not_lt.1 hl))
      rw [if_neg hl, cut_of_le (Nat.not_lt.1 hl), hc, inside_ok_bind]
      simp only [ofBodyAt_eq hc]
      rfl

theorem decodeAllAt_eq (d : Direction) (bytes : Bytes) :
    decodeAllAt d bytes = inside (decodeAll d bytes) := by
  induction hn : bytes.length using Nat.strongRecOn generalizing bytes with
  | ind n ih =>
    cases bytes with
    | nil =>
      rw [decodeAllAt, decodeAll]
      rfl
    | cons number bytes =>
      rw [decodeAllAt, decodeAll]
      have h₁ := decodeOneAt_eq d number bytes
      split
      · rename_i h
        rw [h₁] at h
        cases h
      · rename_i e h
        rw [h₁] at h
        rw [Option.some.inj h]
        rfl
      · rename_i c rest h
        rw [h₁] at h
        have h := Option.some.inj h
        have hlt : rest.length < n := by
          have := length_of_decodeOne h
          rw [← hn, List.length_cons]
          omega
        rw [h, ih _ hlt _ rfl]
        exact inside_bind_congr fun _ _ => rfl

end Command

/-! ### The frame header and what is sent to a port -/

namespace FrameHeader

/-- What is read of the seven bytes with fixed fields and those after them. -/
theorem decode_cons (d : Direction) (a b c e control lo hi : UInt8) (rest : Bytes) :
    decode d (a :: b :: c :: e :: control :: lo :: hi :: rest) =
      if rest.length < FrameControl.optionsLength control then
        .error (.tooShort (minLength + FrameControl.optionsLength control)
          (minLength + rest.length))
      else do
        let options ← Command.decodeAll d (rest.take (FrameControl.optionsLength control))
        return (⟨.ofWire ⟨[a, b, c, e], rfl⟩, .ofByte control, (ofLe16 lo hi).toUInt32, options⟩,
          rest.drop (FrameControl.optionsLength control)) := by
  have hs : Octets.split? 4 (a :: b :: c :: e :: control :: lo :: hi :: rest) =
      some (⟨[a, b, c, e], rfl⟩, control :: lo :: hi :: rest) :=
    Octets.split?_append ⟨[a, b, c, e], rfl⟩ _
  simp only [decode, hs, List.length_cons, Nat.add_comm minLength rest.length]
  rfl

theorem decodeAt_eq (d : Direction) (bytes : Bytes) :
    decodeAt d bytes = inside (decode d bytes) := by
  -- fewer than seven bytes are refused before anything is looked up
  rcases bytes with _ | ⟨a, _ | ⟨b, _ | ⟨c, _ | ⟨e, _ | ⟨control, _ | ⟨lo, _ | ⟨hi, rest⟩⟩⟩⟩⟩⟩⟩
  case cons.cons.cons.cons.cons.cons.cons =>
    have hlen : (a :: b :: c :: e :: control :: lo :: hi :: rest).length =
        minLength + rest.length := by
      simp only [List.length_cons, minLength]
      omega
    rw [decodeAt, decode_cons, if_neg (by omega), hlen]
    simp only [look_cons_zero, look_cons_succ, inside_ok_bind, Nat.add_lt_add_iff_left]
    split
    · rfl
    · rename_i hl
      have haddress : looks (a :: b :: c :: e :: control :: lo :: hi :: rest) 0 4 =
          (inside (.ok ⟨[a, b, c, e], rfl⟩) : Positional FrameError (Octets 4)) :=
        rfl
      rw [haddress, inside_ok_bind, slice_of_le (by omega), slice_of_le (by omega), ← hlen,
        List.take_length, inside_ok_bind, Command.decodeAllAt_eq, Nat.add_comm minLength]
      exact inside_bind_congr fun _ _ => rfl
  all_goals rfl

end FrameHeader

namespace PortItem

theorem decodeForAt_eq (d : Direction) (port : UInt8) (bytes : Bytes) :
    decodeForAt d port bytes = inside (decodeFor d port bytes) := by
  unfold decodeForAt decodeFor
  split
  · rw [Command.decodeAllAt_eq]
    exact map_inside _ _
  · split <;> rfl

end PortItem

namespace DataPayload

theorem decodeAt_eq (d : Direction) (bytes : Bytes) :
    decodeAt d bytes = inside (decode d bytes) := by
  rw [decodeAt, decode, FrameHeader.decodeAt_eq]
  refine inside_bind_congr ?_
  rintro ⟨header, _ | ⟨port, rest⟩⟩ -
  · rfl
  · simp only [PortItem.decodeForAt_eq]
    exact inside_bind_congr fun _ _ => rfl

end DataPayload

/-! ### Join payloads -/

namespace JoinRequest

theorem decodeAt_eq (bytes : Bytes) : decodeAt bytes = inside (decode bytes) := by
  by_cases hl : bytes.length = length
  · obtain ⟨r, rfl⟩ := exists_encode_eq hl
    have h₁ : (slice r.encode 0 8 : Positional FrameError Bytes) =
        inside (.ok r.appEui.toWire.toList) := by
      rw [encode, List.append_assoc]
      exact slice_octets [] _ _ rfl rfl
    have h₂ : (slice r.encode 8 16 : Positional FrameError Bytes) =
        inside (.ok r.devEui.toWire.toList) := by
      rw [encode, List.append_assoc]
      exact slice_octets _ _ _ (by simp) rfl
    have h₃ : (looks r.encode 16 2 : Positional FrameError (Octets 2)) =
        inside (.ok r.devNonce) := by
      rw [encode, ← List.append_nil r.devNonce.toList]
      exact looks_octets _ _ _ (by simp)
    rw [decodeAt, if_neg (not_not_intro hl), decode_encode, h₁, h₂, h₃]
    simp
  · rw [decodeAt, if_pos hl, decode_of_length_ne hl]
    rfl

end JoinRequest

namespace JoinAccept

/-- What is read of the twelve bytes that every answer has and those after them. -/
theorem fields?_cons (a b c d e f g h i j dlSettings rxDelay y : UInt8) (ys : Bytes) :
    fields? (a :: b :: c :: d :: e :: f :: g :: h :: i :: j :: dlSettings :: rxDelay :: y :: ys) =
      (Octets.ofList? 16 (y :: ys)).map fun frequencies =>
        ⟨⟨[a, b, c], rfl⟩, ⟨[d, e, f], rfl⟩, .ofWire ⟨[g, h, i, j], rfl⟩, dlSettings, rxDelay,
          some frequencies⟩ := by
  change (Octets.ofList? 16 (y :: ys)).bind _ = _
  cases Octets.ofList? 16 (y :: ys) <;> rfl

theorem decodeAt_eq (bytes : Bytes) : decodeAt bytes = inside (decode bytes) := by
  -- up to twelve bytes the length alone tells what comes out
  rcases bytes with _ | ⟨a, _ | ⟨b, _ | ⟨c, _ | ⟨d, _ | ⟨e, _ | ⟨f, _ | ⟨g, _ | ⟨h, _ | ⟨i, _ |
    ⟨j, _ | ⟨dlSettings, _ | ⟨rxDelay, _ | ⟨y, ys⟩⟩⟩⟩⟩⟩⟩⟩⟩⟩⟩⟩⟩
  case cons.cons.cons.cons.cons.cons.cons.cons.cons.cons.cons.cons.cons =>
    have hlen : (a :: b :: c :: d :: e :: f :: g :: h :: i :: j :: dlSettings :: rxDelay :: y ::
        ys).length = 28 ↔ (y :: ys).length = 16 := by
      simp only [List.length_cons]
      omega
    rw [decodeAt, frequenciesAt, decode, fields?_cons, if_neg (by simp), slice_to_end (by simp)]
    by_cases hl : (y :: ys).length = 16
    · have hc : copy 16 (y :: ys) = (inside (.ok ⟨y :: ys, hl⟩) : Positional FrameError _) :=
        copy_toList ⟨y :: ys, hl⟩
      rw [if_pos (hlen.2 hl), inside_ok_bind, Octets.ofList?, dif_pos hl]
      change (copy 16 (y :: ys) >>= _) >>= _ = _
      rw [hc]
      rfl
    · rw [if_neg (mt hlen.1 hl), Octets.ofList?, dif_neg hl]
      rfl
  all_goals rfl

end JoinAccept

/-! ### Payloads and frames -/

namespace Payload

theorem decodeAt_eq (m : MessageType) (d : Direction) (bytes : Bytes) :
    decodeAt m d bytes = inside (decode m d bytes) := by
  cases m <;>
    simp only [decodeAt, decode, JoinRequest.decodeAt_eq, JoinAccept.decodeAt_eq,
      DataPayload.decodeAt_eq, pure_eq_inside, throw_eq_inside, map_inside]

end Payload

namespace Frame

theorem decodeAt_eq (d : Direction) (bytes : Bytes) :
    decodeAt d bytes = inside (decode d bytes) := by
  cases bytes with
  | nil => rfl
  | cons header rest =>
    cases hs : Octets.splitLast? 4 rest with
    | none =>
      have hl : rest.length < 4 := by
        simp only [Octets.splitLast?, Octets.ofList?, Option.map_eq_none_iff, dite_eq_right_iff,
          reduceCtorEq, imp_false, List.length_drop] at hs
        omega
      simp only [decode, hs]
      rw [decodeAt, if_pos (show (header :: rest).length < 5 from Nat.succ_lt_succ hl)]
      rfl
    | some parts =>
      obtain ⟨body, mic⟩ := parts
      obtain rfl := Octets.splitLast?_eq_some_iff.1 hs
      simp only [decode, hs]
      rw [decodeAt, if_neg (by simp)]
      split
      · rfl
      · simp only [look_cons_zero, inside_ok_bind]
        refine inside_bind_congr fun m _ => ?_
        rw [slice_to_end (by simp), List.drop_one, List.tail_cons, inside_ok_bind, cutBack_append,
          inside_ok_bind, Payload.decodeAt_eq]
        refine inside_bind_congr fun p _ => ?_
        rw [looks_toList, inside_ok_bind]
        rfl

end Frame

end LoraRelay
