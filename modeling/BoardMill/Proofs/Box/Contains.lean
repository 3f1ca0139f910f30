import BoardMill.Box
import BoardMill.Proofs.Scalar.Order

/-! # What boxes contain

A box that covers others contains them, and it contains the points that they hold. Sides
that are not numbers do not take part in covering.
-/

namespace BoardMill.Box

variable {α : Type} [Scalar α]

/-- All four sides are numbers, possibly infinite ones. -/
structure Numeric (b : Box α) : Prop where
  xMin : Scalar.isNaN b.xMin = false
  xMax : Scalar.isNaN b.xMax = false
  yMin : Scalar.isNaN b.yMin = false
  yMax : Scalar.isNaN b.yMax = false

/-- A box reaches as far as another one on all sides. -/
structure Contains (b c : Box α) : Prop where
  xMin : b.xMin ≤ c.xMin
  xMax : c.xMax ≤ b.xMax
  yMin : b.yMin ≤ c.yMin
  yMax : c.yMax ≤ b.yMax

instance (b c : Box α) : Decidable (b.Contains c) :=
  decidable_of_iff
    (b.xMin ≤ c.xMin ∧ c.xMax ≤ b.xMax ∧ b.yMin ≤ c.yMin ∧ c.yMax ≤ b.yMax)
    ⟨fun ⟨h₁, h₂, h₃, h₄⟩ => ⟨h₁, h₂, h₃, h₄⟩, fun ⟨h₁, h₂, h₃, h₄⟩ => ⟨h₁, h₂, h₃, h₄⟩⟩

/-- A point lies in a box. -/
structure Holds (b : Box α) (p : Point α) : Prop where
  xMin : b.xMin ≤ p.x
  xMax : p.x ≤ b.xMax
  yMin : b.yMin ≤ p.y
  yMax : p.y ≤ b.yMax

variable [OrderedScalar α] {b c d : Box α} {p : Point α}

theorem Contains.trans (hbc : b.Contains c) (hcd : c.Contains d) : b.Contains d where
  xMin := Scalar.le_trans hbc.xMin hcd.xMin
  xMax := Scalar.le_trans hcd.xMax hbc.xMax
  yMin := Scalar.le_trans hbc.yMin hcd.yMin
  yMax := Scalar.le_trans hcd.yMax hbc.yMax

theorem Contains.refl (h : b.Numeric) : b.Contains b where
  xMin := Scalar.le_refl h.xMin
  xMax := Scalar.le_refl h.xMax
  yMin := Scalar.le_refl h.yMin
  yMax := Scalar.le_refl h.yMax

theorem Contains.holds (hbc : b.Contains c) (hp : c.Holds p) : b.Holds p where
  xMin := Scalar.le_trans hbc.xMin hp.xMin
  xMax := Scalar.le_trans hp.xMax hbc.xMax
  yMin := Scalar.le_trans hbc.yMin hp.yMin
  yMax := Scalar.le_trans hp.yMax hbc.yMax

/-- The sides of a box that holds a point are numbers. -/
theorem Holds.numeric (h : b.Holds p) : b.Numeric where
  xMin := OrderedScalar.isNaN_left _ _ h.xMin
  xMax := OrderedScalar.isNaN_right _ _ h.xMax
  yMin := OrderedScalar.isNaN_left _ _ h.yMin
  yMax := OrderedScalar.isNaN_right _ _ h.yMax

/-- A box that holds a point is not empty. -/
theorem Holds.isEmpty (h : b.Holds p) : b.isEmpty = false := by
  have hx := Scalar.not_lt_of_le (Scalar.le_trans h.xMin h.xMax)
  have hy := Scalar.not_lt_of_le (Scalar.le_trans h.yMin h.yMax)
  simp [Box.isEmpty, hx, hy]

theorem numeric_empty : (empty : Box α).Numeric where
  xMin := OrderedScalar.isNaN_infinity
  xMax := OrderedScalar.isNaN_neg_infinity
  yMin := OrderedScalar.isNaN_infinity
  yMax := OrderedScalar.isNaN_neg_infinity

theorem Numeric.cover (hb : b.Numeric) (c : Box α) : (b.cover c).Numeric where
  xMin := Scalar.isNaN_min hb.xMin
  xMax := Scalar.isNaN_max hb.xMax
  yMin := Scalar.isNaN_min hb.yMin
  yMax := Scalar.isNaN_max hb.yMax

theorem cover_contains_left (hb : b.Numeric) (c : Box α) : (b.cover c).Contains b where
  xMin := Scalar.min_le_left hb.xMin
  xMax := Scalar.le_max_left hb.xMax
  yMin := Scalar.min_le_left hb.yMin
  yMax := Scalar.le_max_left hb.yMax

theorem cover_contains_right (b : Box α) (hc : c.Numeric) : (b.cover c).Contains c where
  xMin := Scalar.min_le_right hc.xMin
  xMax := Scalar.le_max_right hc.xMax
  yMin := Scalar.min_le_right hc.yMin
  yMax := Scalar.le_max_right hc.yMax

/-- Covering boxes one after the other leaves a box that contains them all. -/
theorem foldl_cover_contains (hb : b.Numeric) (boxes : List (Box α)) :
    (boxes.foldl cover b).Numeric ∧ (boxes.foldl cover b).Contains b ∧
      ∀ c ∈ boxes, c.Numeric → (boxes.foldl cover b).Contains c := by
  induction boxes generalizing b with
  | nil => exact ⟨hb, .refl hb, fun _ hc => absurd hc List.not_mem_nil⟩
  | cons first rest ih =>
      obtain ⟨hnumeric, hfirst, hrest⟩ := ih (hb.cover first)
      refine ⟨hnumeric, hfirst.trans (cover_contains_left hb first), fun c hc hsides => ?_⟩
      rcases List.mem_cons.mp hc with rfl | hmem
      · exact hfirst.trans (cover_contains_right b hsides)
      · exact hrest c hmem hsides

omit [OrderedScalar α] in
/-- Covering boxes that reach no higher than a number leaves one that does not, either. -/
theorem yMax_foldl_cover_le {y : α} (hb : b.yMax ≤ y) {boxes : List (Box α)}
    (h : ∀ c ∈ boxes, c.yMax ≤ y) : (boxes.foldl cover b).yMax ≤ y := by
  induction boxes generalizing b with
  | nil => exact hb
  | cons first rest ih =>
      obtain ⟨hfirst, hrest⟩ := List.forall_mem_cons.mp h
      exact ih (Scalar.max_le hb hfirst) hrest

end BoardMill.Box
