import BoardMill.Scalar
import Mathlib.Tactic.ByContra

/-! # Ordered numbers

Apart from what is not a number, numbers of the drawing plane are ordered, with an upper
and a lower bound of all of them. The lesser and the greater of two numbers are what they
should be, and what is not a number does not take part.
-/

namespace BoardMill

/-- Numbers that are ordered apart from those that are none. -/
class OrderedScalar (α : Type) [Scalar α] : Prop where
  le_total : ∀ a b : α, Scalar.isNaN a = false → Scalar.isNaN b = false → a ≤ b ∨ b ≤ a
  le_trans : ∀ a b c : α, a ≤ b → b ≤ c → a ≤ c
  lt_iff : ∀ a b : α, a < b ↔ a ≤ b ∧ ¬ b ≤ a
  isNaN_left : ∀ a b : α, a ≤ b → Scalar.isNaN a = false
  isNaN_right : ∀ a b : α, a ≤ b → Scalar.isNaN b = false
  isNaN_infinity : Scalar.isNaN (Scalar.infinity : α) = false
  isNaN_neg_infinity : Scalar.isNaN (-Scalar.infinity : α) = false
  le_infinity : ∀ a : α, Scalar.isNaN a = false → a ≤ Scalar.infinity
  neg_infinity_le : ∀ a : α, Scalar.isNaN a = false → -Scalar.infinity ≤ a

namespace Scalar

variable {α : Type} [Scalar α] [OrderedScalar α] {a b c : α}

theorem le_refl (h : isNaN a = false) : a ≤ a := (OrderedScalar.le_total a a h h).elim id id

theorem le_trans (hab : a ≤ b) (hbc : b ≤ c) : a ≤ c := OrderedScalar.le_trans a b c hab hbc

theorem le_of_lt (h : a < b) : a ≤ b := ((OrderedScalar.lt_iff a b).mp h).1

theorem not_lt_of_le (h : a ≤ b) : ¬ b < a :=
  fun hlt => ((OrderedScalar.lt_iff b a).mp hlt).2 h

theorem le_of_not_lt (ha : isNaN a = false) (hb : isNaN b = false) (h : ¬ b < a) : a ≤ b := by
  rcases OrderedScalar.le_total a b ha hb with hab | hba
  · exact hab
  · by_contra hab
    exact h ((OrderedScalar.lt_iff b a).mpr ⟨hba, hab⟩)

theorem isNaN_min (ha : isNaN a = false) : isNaN (min a b) = false := by
  unfold min
  rw [ha, if_neg Bool.false_ne_true]
  split
  next hlt => exact OrderedScalar.isNaN_left b a (le_of_lt hlt)
  next => exact ha

theorem isNaN_max (ha : isNaN a = false) : isNaN (max a b) = false := by
  unfold max
  rw [ha, if_neg Bool.false_ne_true]
  split
  next hlt => exact OrderedScalar.isNaN_right a b (le_of_lt hlt)
  next => exact ha

theorem min_le_left (ha : isNaN a = false) : min a b ≤ a := by
  unfold min
  rw [ha, if_neg Bool.false_ne_true]
  split
  next hlt => exact le_of_lt hlt
  next => exact le_refl ha

theorem min_le_right (hb : isNaN b = false) : min a b ≤ b := by
  unfold min
  split
  next => exact le_refl hb
  next ha =>
    split
    next => exact le_refl hb
    next hlt => exact le_of_not_lt (Bool.eq_false_iff.mpr ha) hb hlt

theorem le_max_left (ha : isNaN a = false) : a ≤ max a b := by
  unfold max
  rw [ha, if_neg Bool.false_ne_true]
  split
  next hlt => exact le_of_lt hlt
  next => exact le_refl ha

theorem le_max_right (hb : isNaN b = false) : b ≤ max a b := by
  unfold max
  split
  next => exact le_refl hb
  next ha =>
    split
    next => exact le_refl hb
    next hlt => exact le_of_not_lt hb (Bool.eq_false_iff.mpr ha) hlt

omit [OrderedScalar α] in
theorem max_le (ha : a ≤ c) (hb : b ≤ c) : max a b ≤ c := by
  unfold max
  split
  next => exact hb
  next =>
    split
    next => exact hb
    next => exact ha

end Scalar

end BoardMill
