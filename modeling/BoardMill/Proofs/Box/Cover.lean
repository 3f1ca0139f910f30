import BoardMill.Proofs.Box.Contains
import BoardMill.Proofs.Scalar.Double

/-! # Covering boxes in any order

A box reaches another one if it extends as far on every side of it that is a number. What
reaches a cover are the boxes that reach all that was covered. The order of covering has no
part in that, so it has none in the box that comes of it either.
-/

namespace BoardMill

namespace Scalar

variable {α : Type} [Scalar α] {a b x : α}

/-- A lower bound of another number. Everything is one of what is not a number. -/
def Below (x a : α) : Prop := isNaN a = false → x ≤ a

/-- An upper bound of another number. Everything is one of what is not a number. -/
def Above (x a : α) : Prop := isNaN a = false → a ≤ x

theorem below_of_isNaN (h : isNaN a = true) : Below x a := fun hnumber => by
  rw [h] at hnumber
  cases hnumber

theorem above_of_isNaN (h : isNaN a = true) : Above x a := fun hnumber => by
  rw [h] at hnumber
  cases hnumber

theorem min_of_isNaN_left (h : isNaN a = true) : min a b = b := by
  rw [min, if_pos h]

theorem max_of_isNaN_left (h : isNaN a = true) : max a b = b := by
  rw [max, if_pos h]

theorem isNaN_min_right (hb : isNaN b = false) : isNaN (min a b) = false := by
  unfold min
  split
  next => exact hb
  next ha =>
    split
    next => exact hb
    next => exact Bool.eq_false_iff.mpr ha

theorem isNaN_max_right (hb : isNaN b = false) : isNaN (max a b) = false := by
  unfold max
  split
  next => exact hb
  next ha =>
    split
    next => exact hb
    next => exact Bool.eq_false_iff.mpr ha

variable [OrderedScalar α]

theorem min_of_isNaN_right (ha : isNaN a = false) (hb : isNaN b = true) : min a b = a := by
  have hlt : ¬ b < a := fun h => by
    rw [OrderedScalar.isNaN_left b a (le_of_lt h)] at hb
    cases hb
  rw [min, ha, if_neg Bool.false_ne_true, if_neg hlt]

theorem max_of_isNaN_right (ha : isNaN a = false) (hb : isNaN b = true) : max a b = a := by
  have hlt : ¬ a < b := fun h => by
    rw [OrderedScalar.isNaN_right a b (le_of_lt h)] at hb
    cases hb
  rw [max, ha, if_neg Bool.false_ne_true, if_neg hlt]

theorem below_min_iff : Below x (min a b) ↔ Below x a ∧ Below x b := by
  cases ha : isNaN a with
  | true =>
      rw [min_of_isNaN_left ha]
      exact ⟨fun h => ⟨below_of_isNaN ha, h⟩, And.right⟩
  | false =>
      cases hb : isNaN b with
      | true =>
          rw [min_of_isNaN_right ha hb]
          exact ⟨fun h => ⟨h, below_of_isNaN hb⟩, And.left⟩
      | false =>
          constructor
          · intro h
            have hmin := h (isNaN_min ha)
            exact ⟨fun _ => le_trans hmin (min_le_left ha),
              fun _ => le_trans hmin (min_le_right hb)⟩
          · rintro ⟨hxa, hxb⟩ -
            unfold min
            rw [ha, if_neg Bool.false_ne_true]
            split
            · exact hxb hb
            · exact hxa ha

theorem above_max_iff : Above x (max a b) ↔ Above x a ∧ Above x b := by
  cases ha : isNaN a with
  | true =>
      rw [max_of_isNaN_left ha]
      exact ⟨fun h => ⟨above_of_isNaN ha, h⟩, And.right⟩
  | false =>
      cases hb : isNaN b with
      | true =>
          rw [max_of_isNaN_right ha hb]
          exact ⟨fun h => ⟨h, above_of_isNaN hb⟩, And.left⟩
      | false =>
          constructor
          · intro h
            have hmax := h (isNaN_max ha)
            exact ⟨fun _ => le_trans (le_max_left ha) hmax,
              fun _ => le_trans (le_max_right hb) hmax⟩
          · rintro ⟨hxa, hxb⟩ -
            unfold max
            rw [ha, if_neg Bool.false_ne_true]
            split
            · exact hxb hb
            · exact hxa ha

end Scalar

namespace Box

variable {α : Type} [Scalar α] {b c x : Box α}

/-- A box extends as far as another one on all sides of that one that are numbers. -/
structure Reaches (b c : Box α) : Prop where
  xMin : Scalar.Below b.xMin c.xMin
  xMax : Scalar.Above b.xMax c.xMax
  yMin : Scalar.Below b.yMin c.yMin
  yMax : Scalar.Above b.yMax c.yMax

theorem Reaches.contains (h : b.Reaches c) (hc : c.Numeric) : b.Contains c where
  xMin := h.xMin hc.xMin
  xMax := h.xMax hc.xMax
  yMin := h.yMin hc.yMin
  yMax := h.yMax hc.yMax

theorem Numeric.cover_right (b : Box α) (hc : c.Numeric) : (b.cover c).Numeric where
  xMin := Scalar.isNaN_min_right hc.xMin
  xMax := Scalar.isNaN_max_right hc.xMax
  yMin := Scalar.isNaN_min_right hc.yMin
  yMax := Scalar.isNaN_max_right hc.yMax

variable [OrderedScalar α]

theorem Reaches.refl (b : Box α) : b.Reaches b where
  xMin := Scalar.le_refl
  xMax := Scalar.le_refl
  yMin := Scalar.le_refl
  yMax := Scalar.le_refl

/-- What reaches a box of numbers has sides that are numbers, and so it reaches nothing. -/
theorem Reaches.empty (h : x.Reaches b) (hb : b.Numeric) : x.Reaches empty where
  xMin _ := OrderedScalar.le_infinity _ (OrderedScalar.isNaN_left _ _ (h.xMin hb.xMin))
  xMax _ := OrderedScalar.neg_infinity_le _ (OrderedScalar.isNaN_right _ _ (h.xMax hb.xMax))
  yMin _ := OrderedScalar.le_infinity _ (OrderedScalar.isNaN_left _ _ (h.yMin hb.yMin))
  yMax _ := OrderedScalar.neg_infinity_le _ (OrderedScalar.isNaN_right _ _ (h.yMax hb.yMax))

/-- What reaches a cover reaches both boxes. -/
theorem reaches_cover_iff : x.Reaches (b.cover c) ↔ x.Reaches b ∧ x.Reaches c := by
  constructor
  · intro h
    obtain ⟨hxMin, hxMin'⟩ := Scalar.below_min_iff.mp h.xMin
    obtain ⟨hxMax, hxMax'⟩ := Scalar.above_max_iff.mp h.xMax
    obtain ⟨hyMin, hyMin'⟩ := Scalar.below_min_iff.mp h.yMin
    obtain ⟨hyMax, hyMax'⟩ := Scalar.above_max_iff.mp h.yMax
    exact ⟨⟨hxMin, hxMax, hyMin, hyMax⟩, ⟨hxMin', hxMax', hyMin', hyMax'⟩⟩
  · rintro ⟨hb, hc⟩
    constructor
    · exact Scalar.below_min_iff.mpr ⟨hb.xMin, hc.xMin⟩
    · exact Scalar.above_max_iff.mpr ⟨hb.xMax, hc.xMax⟩
    · exact Scalar.below_min_iff.mpr ⟨hb.yMin, hc.yMin⟩
    · exact Scalar.above_max_iff.mpr ⟨hb.yMax, hc.yMax⟩

/-- What reaches the cover of many boxes reaches all of them. -/
theorem reaches_foldl_cover_iff {boxes : List (Box α)} :
    x.Reaches (boxes.foldl cover b) ↔ x.Reaches b ∧ ∀ c ∈ boxes, x.Reaches c := by
  induction boxes generalizing b with
  | nil => simp
  | cons first rest ih =>
      rw [List.foldl_cons, ih, reaches_cover_iff, List.forall_mem_cons, and_assoc]

theorem Numeric.foldl_cover (hb : b.Numeric) (boxes : List (Box α)) :
    (boxes.foldl Box.cover b).Numeric :=
  (foldl_cover_contains hb boxes).1

/-- Doubles that lie between each other are equal, and so are boxes of them that are reached
by the same boxes. -/
theorem beq_of_reaches_iff {b c : Box Float} (hb : b.Numeric) (hc : c.Numeric)
    (h : ∀ x : Box Float, x.Reaches b ↔ x.Reaches c) : (b == c) = true := by
  have hbc : b.Contains c := ((h b).mp (.refl b)).contains hc
  have hcb : c.Contains b := ((h c).mpr (.refl c)).contains hb
  change (b.xMin == c.xMin && (b.xMax == c.xMax && (b.yMin == c.yMin && b.yMax == c.yMax))) = true
  rw [Double.beq_of_le_of_le hbc.xMin hcb.xMin, Double.beq_of_le_of_le hcb.xMax hbc.xMax,
    Double.beq_of_le_of_le hbc.yMin hcb.yMin, Double.beq_of_le_of_le hcb.yMax hbc.yMax]
  rfl

/-- The order in which boxes are covered does not matter. -/
theorem foldl_cover_beq_of_perm {order boxes : List (Box Float)} (h : order.Perm boxes) :
    (order.foldl cover empty == boxes.foldl cover empty) = true := by
  apply beq_of_reaches_iff (numeric_empty.foldl_cover _) (numeric_empty.foldl_cover _)
  intro x
  simp only [reaches_foldl_cover_iff, h.mem_iff]

end Box

end BoardMill
