import LoraRelay.Position.Basic

/-!
# Computations that stay inside

Every step of a computation by position that goes outside loses the whole computation, so
`inside_bind_congr` is how safety is proved: the first step is inside, and so is the rest,
for every result that the first step can really have. The other lemmas say what is found at
a position that is inside.
-/

namespace LoraRelay

namespace Positional

variable {ε α β : Type}

theorem inside_ne_outside (x : Except ε α) : inside x ≠ outside := by
  intro h
  cases h

/-- **A computation stays inside** if its first step does, and the rest for whatever the
first step can come to. -/
theorem inside_bind_congr {x : Except ε α} {f : α → Positional ε β} {g : α → Except ε β}
    (h : ∀ a, x = .ok a → f a = inside (g a)) : inside x >>= f = inside (x >>= g) := by
  cases x with
  | error e => rfl
  | ok a => exact h a rfl

/-! ### Positions that are inside -/

theorem look_cons_zero (x : α) (xs : List α) :
    (look (x :: xs) 0 : Positional ε α) = inside (.ok x) := rfl

theorem look_cons_succ (x : α) (xs : List α) (i : Nat) :
    (look (x :: xs) (i + 1) : Positional ε α) = look xs i := rfl

theorem look_append (front rest : List α) (i : Nat) :
    (look (front ++ rest) (front.length + i) : Positional ε α) = look rest i := by
  unfold look
  rw [List.getElem?_append_right (Nat.le_add_right _ _), Nat.add_sub_cancel_left]

theorem looks_append (front bytes rest : Bytes) :
    (looks (front ++ (bytes ++ rest)) front.length bytes.length : Positional ε _) =
      inside (.ok ⟨bytes, rfl⟩) := by
  induction bytes generalizing front with
  | nil => rfl
  | cons b bytes ih =>
    have hfirst : (look (front ++ (b :: bytes ++ rest)) front.length : Positional ε UInt8) =
        inside (.ok b) :=
      look_append front _ 0
    have hothers := ih (front ++ [b])
    rw [List.append_assoc, List.length_append, List.singleton_append] at hothers
    change look _ _ >>= _ = _
    rw [hfirst, inside_ok_bind]
    change looks (front ++ b :: (bytes ++ rest)) (front.length + [b].length) bytes.length >>= _ = _
    rw [hothers]
    rfl

/-- The bytes of a field of fixed size, wherever it begins. -/
theorem looks_octets (front : Bytes) {n i : Nat} (a : Octets n) (rest : Bytes)
    (hi : front.length = i) :
    (looks (front ++ (a.toList ++ rest)) i n : Positional ε (Octets n)) = inside (.ok a) := by
  obtain ⟨bytes, rfl⟩ := a
  subst hi
  exact looks_append front bytes rest

@[simp] theorem looks_toList {n : Nat} (a : Octets n) :
    (looks a.toList 0 n : Positional ε (Octets n)) = inside (.ok a) := by
  have h : (looks ([] ++ (a.toList ++ [])) 0 n : Positional ε (Octets n)) = _ :=
    looks_octets [] a [] rfl
  rwa [List.nil_append, List.append_nil] at h

theorem slice_of_le {bytes : Bytes} {i j : Nat} (h : i ≤ j ∧ j ≤ bytes.length) :
    (slice bytes i j : Positional ε Bytes) = inside (.ok ((bytes.take j).drop i)) :=
  if_pos h

theorem slice_to_end {bytes : Bytes} {i : Nat} (h : i ≤ bytes.length) :
    (slice bytes i bytes.length : Positional ε Bytes) = inside (.ok (bytes.drop i)) := by
  rw [slice_of_le ⟨h, Nat.le_refl _⟩, List.take_length]

theorem slice_octets (front : Bytes) {n i j : Nat} (a : Octets n) (rest : Bytes)
    (hi : front.length = i) (hj : i + n = j) :
    (slice (front ++ (a.toList ++ rest)) i j : Positional ε Bytes) = inside (.ok a.toList) := by
  subst hi hj
  have ht : (front ++ (a.toList ++ rest)).take (front.length + n) = front ++ a.toList := by
    rw [← List.append_assoc]
    exact List.take_left' (by simp)
  rw [slice_of_le (by simp), ht, List.drop_left]

theorem cut_of_le {bytes : Bytes} {i : Nat} (h : i ≤ bytes.length) :
    (cut bytes i : Positional ε (Bytes × Bytes)) = inside (.ok (bytes.take i, bytes.drop i)) :=
  if_pos h

theorem cutBack_append (front : Bytes) {n : Nat} (a : Octets n) :
    (cutBack (front ++ a.toList) n : Positional ε (Bytes × Bytes)) =
      inside (.ok (front, a.toList)) := by
  have hl : (front ++ a.toList).length - n = front.length := by
    simp
  rw [cutBack, if_pos (by simp), hl, List.take_left, List.drop_left]

@[simp] theorem copy_toList {n : Nat} (a : Octets n) :
    (copy n a.toList : Positional ε (Octets n)) = inside (.ok a) := by
  rw [copy, Octets.ofList?_toList]

end Positional

end LoraRelay
