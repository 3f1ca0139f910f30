import BoardMill.Proofs.Scalar.Angle

/-! # Points of a circle

A point of a circle is told by its angle. It lies in the square around the circle if sine and
cosine are at most one, and at the radius from the center if their squares add up to one. At the
multiples of a right angle it lies on an axis through the center.
-/

namespace BoardMill

/-- Sine and cosine are at most one, whatever their sign. -/
structure Analytic.Bounded (K : Type) [Field K] [LinearOrder K] [Analytic K] : Prop where
  abs_sin_le : ∀ x : K, |Analytic.sin x| ≤ 1
  abs_cos_le : ∀ x : K, |Analytic.cos x| ≤ 1

/-- The squares of sine and cosine add up to one, and both have their exact values at the
multiples of a right angle. -/
structure Analytic.Circular (K : Type) [Field K] [Analytic K] : Prop where
  sin_sq_add_cos_sq : ∀ x : K, Analytic.sin x ^ 2 + Analytic.cos x ^ 2 = 1
  sin_mul_pi : ∀ n : ℤ, Analytic.sin (n * Analytic.pi : K) = 0
  cos_mul_pi : ∀ n : ℤ, Analytic.cos (n * Analytic.pi : K) = (-1) ^ n
  sin_mul_pi_add_right : ∀ n : ℤ, Analytic.sin (n * Analytic.pi + Analytic.pi / 2 : K) = (-1) ^ n
  cos_mul_pi_add_right : ∀ n : ℤ, Analytic.cos (n * Analytic.pi + Analytic.pi / 2 : K) = 0

/-- A point has a distance from another one. -/
structure Point.IsAway {α : Type} [Scalar α] (distance : α) (p q : Point α) : Prop where
  nonneg : 0.0 ≤ distance
  square : Scalar.sq (p.x - q.x) + Scalar.sq (p.y - q.y) = Scalar.sq distance

/-- A point is at most so far from the origin along each axis. -/
def Point.Within {K : Type} [Field K] [LinearOrder K] (halfX halfY : K) (p : Point (Exact K)) :
    Prop :=
  ∃ x y, p = ⟨.number x, .number y⟩ ∧ |x| ≤ halfX ∧ |y| ≤ halfY

variable {K : Type} [Field K] [LinearOrder K] [Analytic K]

/-- The point of a circle at an angle. -/
def onCircle (x y radius angle : K) : Point (Exact K) :=
  ⟨.number (x + radius * Analytic.cos angle), .number (y + radius * Analytic.sin angle)⟩

theorem within_onCircle [IsStrictOrderedRing K] (h : Analytic.Bounded K)
    {x y radius halfX halfY : K} (hradius : 0 ≤ radius) (hx : |x| + radius ≤ halfX)
    (hy : |y| + radius ≤ halfY) (angle : K) : (onCircle x y radius angle).Within halfX halfY := by
  have hreach {center half part : K} (hhalf : |center| + radius ≤ half) (hpart : |part| ≤ 1) :
      |center + radius * part| ≤ half := by
    calc
      |center + radius * part| ≤ |center| + |radius * part| := abs_add_le _ _
      _ = |center| + radius * |part| := by rw [abs_mul, abs_of_nonneg hradius]
      _ ≤ |center| + radius := by linarith [mul_le_of_le_one_right hradius hpart]
      _ ≤ half := hhalf
  exact ⟨_, _, rfl, hreach hx (h.abs_cos_le angle), hreach hy (h.abs_sin_le angle)⟩

namespace Analytic.Circular

variable (h : Analytic.Circular K) (x y radius : K)

include h

theorem isAway_onCircle [FloorRing K] {radius : K} (hradius : 0 ≤ radius) (angle : K) :
    (onCircle x y radius angle).IsAway (.number radius) ⟨.number x, .number y⟩ where
  nonneg := by rwa [Exact.zero_eq, Exact.number_le_number]
  square := by
    simp only [onCircle, Scalar.sq, Exact.number_sub, Exact.number_mul, Exact.number_add]
    congr 1
    linear_combination radius ^ 2 * h.sin_sq_add_cos_sq angle

omit [LinearOrder K] in
theorem onCircle_mul_pi (n : ℤ) :
    onCircle x y radius (n * Analytic.pi) = ⟨.number (x + radius * (-1) ^ n), .number y⟩ := by
  rw [onCircle, h.cos_mul_pi, h.sin_mul_pi, mul_zero, add_zero]

omit [LinearOrder K] in
theorem onCircle_mul_pi_add_right (n : ℤ) :
    onCircle x y radius (n * Analytic.pi + Analytic.pi / 2) =
      ⟨.number x, .number (y + radius * (-1) ^ n)⟩ := by
  rw [onCircle, h.cos_mul_pi_add_right, h.sin_mul_pi_add_right, mul_zero, add_zero]

end Analytic.Circular

end BoardMill
