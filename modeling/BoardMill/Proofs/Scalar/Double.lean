import BoardMill.Decimal.Binary
import BoardMill.Proofs.Scalar.Order
import Mathlib.Data.Prod.Lex
import Mathlib.Order.Compare

/-! # The order of doubles

Doubles are compared by their sign, then by their exponents and mantissas. Apart from what
is not a number they are ordered as keys of these three parts are, and so they are numbers
that are ordered.
-/

namespace BoardMill.Double

open Float.Model (UnpackedFloat)

/-- The place of a number among all: its class first, then exponent and mantissa, which
count the other way below zero. -/
def rank : UnpackedFloat → Int ×ₗ Int ×ₗ Int
  | .infinity .positive => toLex (2, toLex (0, 0))
  | .infinity .negative => toLex (-2, toLex (0, 0))
  | .finite .positive m e _ => toLex (1, toLex (e, m))
  | .finite .negative m e _ => toLex (-1, toLex (-e, -m))
  | .zero _ | .notANumber => toLex (0, toLex (0, 0))

theorem compare_toLex {α β : Type} [Ord α] [Ord β] (a b : α × β) :
    compare (toLex a) (toLex b) = (compare a.1 b.1).then (compare a.2 b.2) := by
  rw [Prod.Lex.compare_def]
  rfl

theorem compare_neg_neg (a b : Int) : compare (-a) (-b) = (compare a b).swap := by
  rcases lt_trichotomy a b with h | rfl | h
  · rw [compare_lt_iff_lt.mpr h, compare_gt_iff_gt.mpr (Int.neg_lt_neg h)]
    rfl
  · rw [compare_eq_iff_eq.mpr rfl, compare_eq_iff_eq.mpr rfl]
    rfl
  · rw [compare_gt_iff_gt.mpr h, compare_lt_iff_lt.mpr (Int.neg_lt_neg h)]
    rfl

theorem compare_natCast (m n : Nat) : compare (m : Int) n = compare m n := by
  rcases lt_trichotomy m n with h | rfl | h
  · rw [compare_lt_iff_lt.mpr h, compare_lt_iff_lt.mpr (Int.ofNat_lt.mpr h)]
  · rw [compare_eq_iff_eq.mpr rfl, compare_eq_iff_eq.mpr rfl]
  · rw [compare_gt_iff_gt.mpr h, compare_gt_iff_gt.mpr (Int.ofNat_lt.mpr h)]

/-- Numbers compare as their ranks do. -/
theorem compare_eq {a b : UnpackedFloat} (ha : a ≠ .notANumber) (hb : b ≠ .notANumber) :
    a.compare b = some (compare (rank a) (rank b)) := by
  -- Only two finite numbers of one sign need more than their classes.
  cases a with
  | notANumber => exact absurd rfl ha
  | infinity s =>
      cases b with
      | notANumber => exact absurd rfl hb
      | infinity t => cases s <;> cases t <;> rfl
      | zero t => cases s <;> rfl
      | finite t n f hn => cases s <;> cases t <;> rfl
  | zero s =>
      cases b with
      | notANumber => exact absurd rfl hb
      | infinity t => cases t <;> rfl
      | zero t => rfl
      | finite t n f hn => cases t <;> rfl
  | finite s m e hm =>
      cases b with
      | notANumber => exact absurd rfl hb
      | infinity t => cases s <;> cases t <;> rfl
      | zero t => cases s <;> rfl
      | finite t n f hn =>
          cases s <;> cases t
          · change some ((compare e f).then (compare m n)).swap = some (compare
              (toLex ((-1 : Int), toLex (-e, -(m : Int)))) (toLex (-1, toLex (-f, -(n : Int)))))
            rw [compare_toLex, compare_toLex, compare_eq_iff_eq.mpr rfl, compare_neg_neg,
              compare_neg_neg, compare_natCast, Ordering.swap_then]
            rfl
          · rfl
          · rfl
          · change some ((compare e f).then (compare m n)) = some (compare
              (toLex ((1 : Int), toLex (e, (m : Int)))) (toLex (1, toLex (f, (n : Int)))))
            rw [compare_toLex, compare_toLex, compare_eq_iff_eq.mpr rfl, compare_natCast]
            rfl

theorem compare_notANumber_left (b : UnpackedFloat) :
    UnpackedFloat.compare .notANumber b = none := by
  cases b <;> rfl

theorem compare_notANumber_right (a : UnpackedFloat) :
    UnpackedFloat.compare a .notANumber = none := by
  cases a <;> rfl

theorem unpacked_le_iff {a b : UnpackedFloat} :
    a.le b = true ↔ a ≠ .notANumber ∧ b ≠ .notANumber ∧ rank a ≤ rank b := by
  by_cases ha : a = .notANumber
  · simp [UnpackedFloat.le, ha, compare_notANumber_left]
  by_cases hb : b = .notANumber
  · simp [UnpackedFloat.le, hb, compare_notANumber_right]
  simp [UnpackedFloat.le, compare_eq ha hb, ha, hb, Ordering.isLE_iff_ne_gt, compare_le_iff_le]

theorem unpacked_lt_iff {a b : UnpackedFloat} :
    a.lt b = true ↔ a ≠ .notANumber ∧ b ≠ .notANumber ∧ rank a < rank b := by
  by_cases ha : a = .notANumber
  · simp [UnpackedFloat.lt, ha, compare_notANumber_left]
  by_cases hb : b = .notANumber
  · simp [UnpackedFloat.lt, hb, compare_notANumber_right]
  simp [UnpackedFloat.lt, compare_eq ha hb, ha, hb, compare_lt_iff_lt]

theorem unpacked_beq_iff {a b : UnpackedFloat} :
    a.beq b = true ↔ a ≠ .notANumber ∧ b ≠ .notANumber ∧ rank a = rank b := by
  change (a.compare b == some .eq) = true ↔ _
  by_cases ha : a = .notANumber
  · simp [ha, compare_notANumber_left]
  by_cases hb : b = .notANumber
  · simp [hb, compare_notANumber_right]
  simp [compare_eq ha hb, ha, hb, compare_eq_iff_eq]

/-! ## Packed numbers -/

def value (a : Float) : UnpackedFloat := a.toModel.unpack

variable {a b : Float}

theorem le_iff :
    a ≤ b ↔ value a ≠ .notANumber ∧ value b ≠ .notANumber ∧ rank (value a) ≤ rank (value b) := by
  rw [← unpacked_le_iff]
  change decide (a.toModel ≤ b.toModel) = true ↔ _
  exact decide_eq_true_iff

theorem lt_iff :
    a < b ↔ value a ≠ .notANumber ∧ value b ≠ .notANumber ∧ rank (value a) < rank (value b) := by
  rw [← unpacked_lt_iff]
  change decide (a.toModel < b.toModel) = true ↔ _
  exact decide_eq_true_iff

theorem beq_iff :
    (a == b) = true ↔
      value a ≠ .notANumber ∧ value b ≠ .notANumber ∧ rank (value a) = rank (value b) :=
  unpacked_beq_iff

theorem isNaN_eq_false_iff : Scalar.isNaN a = false ↔ value a ≠ .notANumber := by
  rw [Scalar.isNaN, Bool.not_eq_false', beq_iff]
  simp

theorem rank_le_infinity (x : UnpackedFloat) : rank x ≤ rank (.infinity .positive) := by
  cases x with
  | infinity s => cases s <;> decide
  | notANumber => decide
  | zero s => cases s <;> decide
  | finite s m e hm =>
      cases s with
      | negative => exact (Prod.Lex.toLex_lt_toLex.mpr (.inl (show (-1 : Int) < 2 by decide))).le
      | positive => exact (Prod.Lex.toLex_lt_toLex.mpr (.inl (show (1 : Int) < 2 by decide))).le

theorem neg_infinity_le_rank (x : UnpackedFloat) : rank (.infinity .negative) ≤ rank x := by
  cases x with
  | infinity s => cases s <;> decide
  | notANumber => decide
  | zero s => cases s <;> decide
  | finite s m e hm =>
      cases s with
      | negative => exact (Prod.Lex.toLex_lt_toLex.mpr (.inl (show (-2 : Int) < -1 by decide))).le
      | positive => exact (Prod.Lex.toLex_lt_toLex.mpr (.inl (show (-2 : Int) < 1 by decide))).le

instance : OrderedScalar Float where
  le_total a b ha hb := by
    rw [isNaN_eq_false_iff] at ha hb
    rw [le_iff, le_iff]
    exact (le_total (rank (value a)) (rank (value b))).imp (⟨ha, hb, ·⟩) (⟨hb, ha, ·⟩)
  le_trans a b c hab hbc := by
    rw [le_iff] at hab hbc ⊢
    exact ⟨hab.1, hbc.2.1, hab.2.2.trans hbc.2.2⟩
  lt_iff a b := by
    rw [le_iff, le_iff]
    refine (lt_iff (a := a) (b := b)).trans ?_
    rw [lt_iff_le_not_ge]
    tauto
  isNaN_left a b h := isNaN_eq_false_iff.mpr (le_iff.mp h).1
  isNaN_right a b h := isNaN_eq_false_iff.mpr (le_iff.mp h).2.1
  isNaN_infinity := rfl
  isNaN_neg_infinity := rfl
  le_infinity a h := le_iff.mpr ⟨isNaN_eq_false_iff.mp h, nofun, rank_le_infinity _⟩
  neg_infinity_le a h := le_iff.mpr ⟨nofun, isNaN_eq_false_iff.mp h, neg_infinity_le_rank _⟩

/-- Doubles are equal, zeros of either sign included, if neither is below the other. -/
theorem beq_of_le_of_le (hab : a ≤ b) (hba : b ≤ a) : (a == b) = true := by
  rw [le_iff] at hab hba
  exact beq_iff.mpr ⟨hab.1, hab.2.1, le_antisymm hab.2.2 hba.2.2⟩

/-! ## Infinite numbers -/

theorem value_of_infinity_le (h : Scalar.infinity ≤ a) : value a = .infinity .positive := by
  have hclass : (2 : Int) ≤ (ofLex (rank (value a))).1 :=
    Prod.Lex.monotone_fst _ _ (le_iff.mp h).2.2
  cases hvalue : value a with
  | infinity s =>
      rw [hvalue] at hclass
      cases s with
      | negative => exact absurd (show (2 : Int) ≤ -2 from hclass) (by decide)
      | positive => rfl
  | notANumber => exact absurd hvalue (le_iff.mp h).2.1
  | zero s =>
      rw [hvalue] at hclass
      exact absurd (show (2 : Int) ≤ 0 from hclass) (by decide)
  | finite s m e hm =>
      rw [hvalue] at hclass
      cases s with
      | negative => exact absurd (show (2 : Int) ≤ -1 from hclass) (by decide)
      | positive => exact absurd (show (2 : Int) ≤ 1 from hclass) (by decide)

/-- No multiple of an infinite number is finite. -/
theorem infinity_mul (h : Scalar.infinity ≤ a) (b : Float) :
    a * b = ⟨.pack .notANumber⟩ ∨ ∃ sign, a * b = ⟨.pack (.infinity sign)⟩ := by
  have hmul : a * b = ⟨.pack (UnpackedFloat.mul .binary64 (value a) (value b))⟩ := rfl
  rw [hmul, value_of_infinity_le h]
  cases value b with
  | notANumber => exact .inl rfl
  | zero s => exact .inl rfl
  | infinity s => exact .inr ⟨_, rfl⟩
  | finite s m e hm => exact .inr ⟨_, rfl⟩

end BoardMill.Double
