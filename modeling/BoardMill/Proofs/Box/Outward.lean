import BoardMill.Proofs.Box.Frames
import Mathlib.Analysis.SpecialFunctions.Complex.Arg

/-! # How far out points lie

A point of the real plane is a complex number. It lies in a box if it lies no farther out
along any of the four half axes than the side of the box there, so a point that is outdone
along every half axis by some point of a box lies in the box, or as near to it as it is
outdone.
-/

namespace BoardMill

variable {α : Type} [Scalar α]

/-- A box with its sides moved out by a distance. -/
def Box.widen (b : Box α) (distance : α) : Box α :=
  ⟨b.xMin - distance, b.xMax + distance, b.yMin - distance, b.yMax + distance⟩

/-- How far out a point lies to the right, up, to the left and down. -/
def outward (z : ℂ) : Fin 4 → ℝ := ![z.re, z.im, -z.re, -z.im]

theorem outward_add (z w : ℂ) (k : Fin 4) : outward (z + w) k = outward z k + outward w k := by
  fin_cases k <;> simp [outward, add_comm]

theorem outward_ofReal_mul (r : ℝ) (z : ℂ) (k : Fin 4) :
    outward (r * z) k = r * outward z k := by
  fin_cases k <;> simp [outward]

theorem abs_outward_le {z : ℂ} {m : ℝ} (hre : |z.re| ≤ m) (him : |z.im| ≤ m) (k : Fin 4) :
    |outward z k| ≤ m := by
  fin_cases k <;> simpa [outward]

/-- On the circle around the origin a point lies as far out as its angle is near that of the
half axis. -/
theorem outward_exp (t : ℝ) (k : Fin 4) :
    outward (Complex.exp (t * Complex.I)) k = Real.cos (t - k * Real.pi / 2) := by
  have hdown : Real.cos (t - 3 * Real.pi / 2) = -Real.sin t := by
    rw [← Real.cos_add_pi_div_two, ← Real.cos_sub_two_pi (t + Real.pi / 2)]
    congr 1
    ring
  fin_cases k <;>
    simp [outward, Complex.exp_ofReal_mul_I_re, Complex.exp_ofReal_mul_I_im,
      Real.cos_sub_pi_div_two, Real.cos_sub_pi, hdown]

/-- A point lies out by its distance from another one in its direction from there. -/
theorem outward_eq (z c : ℂ) (k : Fin 4) :
    outward z k =
      outward c k + ‖z - c‖ * Real.cos (Complex.arg (z - c) - k * Real.pi / 2) := by
  rw [← outward_exp, ← outward_ofReal_mul, Complex.norm_mul_exp_arg_mul_I, ← outward_add,
    add_sub_cancel]

def Point.ofComplex (z : ℂ) : Point (Exact ℝ) := ⟨.number z.re, .number z.im⟩

variable [Analytic ℝ]

theorem Point.Finite.exists_ofComplex {p : Point (Exact ℝ)} (h : p.Finite) :
    ∃ z, p = .ofComplex z := by
  obtain ⟨x, y⟩ := p
  obtain ⟨x, rfl⟩ := Exact.exists_number h.x
  obtain ⟨y, rfl⟩ := Exact.exists_number h.y
  exact ⟨⟨x, y⟩, rfl⟩

namespace Exact

theorem number_le_add {a : Exact ℝ} {x y m : ℝ} (h : number x ≤ a) (hy : y ≤ x + m) :
    number y ≤ a + number m := by
  cases a with
  | number z =>
      rw [number_le_number] at h
      rw [number_add, number_le_number]
      linarith
  | above => rfl
  | below => cases h
  | undefined => cases h

theorem add_le_number {a : Exact ℝ} {x m : ℝ} (h : a ≤ number x) :
    a + number m ≤ number (x + m) := by
  cases a with
  | number z =>
      rw [number_le_number] at h
      rw [number_add, number_le_number]
      linarith
  | below => rfl
  | above => cases h
  | undefined => cases h

theorem sub_le_number {a : Exact ℝ} {x y m : ℝ} (h : a ≤ number x) (hy : x - m ≤ y) :
    a - number m ≤ number y := by
  cases a with
  | number z =>
      rw [number_le_number] at h
      rw [number_sub, number_le_number]
      linarith
  | below => rfl
  | above => cases h
  | undefined => cases h

end Exact

/-- A point is near a box if along every half axis some point of the box lies about as far
out. -/
theorem Box.holds_widen {b : Box (Exact ℝ)} {z : ℂ} {m : ℝ}
    (h : ∀ k, ∃ q, b.Holds (.ofComplex q) ∧ outward z k ≤ outward q k + m) :
    (b.widen (.number m)).Holds (.ofComplex z) := by
  obtain ⟨right, hright, hxMax⟩ := h 0
  obtain ⟨top, htop, hyMax⟩ := h 1
  obtain ⟨left, hleft, hxMin⟩ := h 2
  obtain ⟨bottom, hbottom, hyMin⟩ := h 3
  refine ⟨Exact.sub_le_number hleft.xMin ?_, Exact.number_le_add hright.xMax hxMax,
    Exact.sub_le_number hbottom.yMin ?_, Exact.number_le_add htop.yMax hyMax⟩
  · change -z.re ≤ -left.re + m at hxMin
    linarith
  · change -z.im ≤ -bottom.im + m at hyMin
    linarith

end BoardMill
