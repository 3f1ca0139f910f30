import BoardMill.Coordinate.Sliced
import BoardMill.Proofs.Text.Slice

/-! # Slices of coordinates

A coordinate is cut behind its sign only, and a sign is a character of one byte.
-/

namespace BoardMill

variable {α ε : Type}

/-- A sign is a character of one byte. -/
theorem Slicing.splitSign_eq (text : List Char) :
    (splitSign text : Slicing ε _) = pure (Decimal.splitSign text) := by
  unfold Decimal.splitSign
  split
  next rest =>
    change (do pure (true, ← behind 1 ('-' :: rest)) : Slicing ε _) = _
    rw [behind_one (by decide)]
    rfl
  next rest =>
    change (do pure (false, ← behind 1 ('+' :: rest)) : Slicing ε _) = _
    rw [behind_one (by decide)]
    rfl
  next hminus hplus =>
    unfold splitSign
    split
    next hhead =>
      obtain ⟨rest, rfl⟩ := List.head?_eq_some_iff.mp hhead
      exact (hminus rest rfl).elim
    next hhead =>
      obtain ⟨rest, rfl⟩ := List.head?_eq_some_iff.mp hhead
      exact (hplus rest rfl).elim
    next => rfl

variable [Scalar α]

theorem DigitCount.readSliced?_eq (count : DigitCount) (fill : List Char → List Char)
    (text : List Char) :
    (count.readSliced? fill text : Slicing ε (Option α)) = pure (count.readFilled? fill text) := by
  unfold DigitCount.readSliced? DigitCount.readFilled?
  rw [Slicing.splitSign_eq]
  split
  · rfl
  · rw [pure_bind]
    dsimp only
    split <;> rfl

theorem CoordinateFormat.decodeSliced?_eq (format : CoordinateFormat) (axis : Axis)
    (text : List Char) :
    (format.decodeSliced? axis text : Slicing ε (Option α)) = pure (format.decode? axis text) :=
  DigitCount.readSliced?_eq ..

end BoardMill
