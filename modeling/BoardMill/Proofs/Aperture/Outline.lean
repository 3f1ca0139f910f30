import BoardMill.Proofs.Aperture.Stadium
import BoardMill.Proofs.Box.Frames
import BoardMill.Proofs.Gerber.ApertureTable

/-! # Outlines and footprints

An aperture is drawn by its outline, and takes up its footprint in the box of a document. In exact
arithmetic the outline lies in the footprint wherever the aperture is stamped: each shape has its
own reason, and none needs more of sine and cosine than that they are at most one.
-/

namespace BoardMill

/-- All parameters of a shape are numbers. -/
structure Shape.Finite {α : Type} [Scalar α] (shape : Shape α) : Prop where
  size : shape.size.Finite
  rotation : ∀ diameter vertices rotation, shape = .polygon diameter vertices rotation →
    Scalar.isFinite rotation = true

variable {K : Type} [Field K] [LinearOrder K] [IsStrictOrderedRing K] [FloorRing K] [Analytic K]

theorem Box.holds_around_of_within {p q : Point (Exact K)} {halfX halfY : K} (hp : p.Finite)
    (hq : q.Within halfX halfY) :
    (Box.around p (.number halfX) (.number halfY)).Holds ⟨q.x + p.x, q.y + p.y⟩ := by
  obtain ⟨px, py⟩ := p
  obtain ⟨px, hpx⟩ := Exact.exists_number hp.x
  obtain ⟨py, hpy⟩ := Exact.exists_number hp.y
  obtain ⟨x, y, rfl, hx, hy⟩ := hq
  rw [abs_le] at hx hy
  cases hpx
  cases hpy
  constructor <;>
    simp only [Box.around, Exact.number_add, Exact.number_sub, Exact.number_le_number] <;> linarith

/-! ## Shapes -/

theorem within_rectangleCorners {halfX halfY : K} (hx : 0 ≤ halfX) (hy : 0 ≤ halfY) :
    ∀ p ∈ rectangleCorners (.number halfX) (.number halfY), p.Within halfX halfY := by
  have hright : |halfX| ≤ halfX := (abs_of_nonneg hx).le
  have hleft : |-halfX| ≤ halfX := (abs_neg halfX).le.trans hright
  have htop : |halfY| ≤ halfY := (abs_of_nonneg hy).le
  have hbottom : |-halfY| ≤ halfY := (abs_neg halfY).le.trans htop
  simp only [rectangleCorners, List.forall_mem_cons, Exact.neg_number]
  exact ⟨⟨_, _, rfl, hleft, hbottom⟩, ⟨_, _, rfl, hright, hbottom⟩, ⟨_, _, rfl, hright, htop⟩,
    ⟨_, _, rfl, hleft, htop⟩, nofun⟩

section Shapes

variable (h : Analytic.Bounded K)

include h

omit [FloorRing K] in
theorem within_cap {x y radius first halfX halfY : K} {segments : ℕ} (hradius : 0 ≤ radius)
    (hx : |x| + radius ≤ halfX) (hy : |y| + radius ≤ halfY) :
    ∀ p ∈ cap x y radius first segments, p.Within halfX halfY := by
  intro p hp
  obtain ⟨angle, rfl⟩ := exists_angle_of_mem_cap _ _ _ _ hp
  exact within_onCircle h hradius hx hy angle

theorem within_regularPolygon {radius : K} (hradius : 0 ≤ radius) (corners : ℕ) (rotation : K) :
    ∀ p ∈ regularPolygon (.number radius) corners (.number rotation), p.Within radius radius := by
  intro p hp
  obtain ⟨k, hk, rfl⟩ := List.mem_map.mp hp
  have hne : (corners : K) ≠ 0 := Nat.cast_ne_zero.mpr (Nat.ne_zero_of_lt (List.mem_range.mp hk))
  have hangle : (.number rotation + 2.0 * Scalar.pi * Scalar.ofNat k / Scalar.ofNat corners :
      Exact K) = .number (rotation + 2 * Analytic.pi * k / corners) := by
    rw [Exact.ofNat_eq, Exact.ofNat_eq, Exact.two_eq]
    change Exact.number rotation + .number (2 * Analytic.pi * k) / .number (corners : K) = _
    rw [Exact.number_div hne, Exact.number_add]
  have hpoint : (onCircle 0 0 radius (rotation + 2 * Analytic.pi * k / corners)).Within radius
      radius :=
    within_onCircle h hradius (by simp) (by simp) _
  dsimp only
  rw [hangle]
  rwa [onCircle, zero_add, zero_add] at hpoint

/-- The caps of an obround reach as far as its longer side, and across no farther than the other. -/
theorem within_obround {x y : K} (hx : 0 ≤ x) (hy : 0 ≤ y) {segments : ℕ}
    (hsegments : 0 < segments) :
    ∀ p ∈ (Obround.ofSize (.number x) (.number y)).outline segments,
      p.Within (x / 2) (y / 2) := by
  have hradius : 0 ≤ min x y / 2 := div_nonneg (le_min hx hy) zero_le_two
  -- From the middle to the center of a cap, and on by the radius, is half of the longer side.
  have hlong : |(|x - y| / 2)| + min x y / 2 = max x y / 2 := by
    rw [abs_of_nonneg (div_nonneg (abs_nonneg _) zero_le_two), ← max_sub_min_eq_abs']
    ring
  have hopposite : |-(|x - y| / 2)| + min x y / 2 = max x y / 2 := by rw [abs_neg, hlong]
  have hshort : |(0 : K)| + min x y / 2 = min x y / 2 := by rw [abs_zero, zero_add]
  rw [Obround.ofSize_number, Obround.outline_number _ _ _ hsegments]
  by_cases hwide : y ≤ x
  · rw [max_eq_left hwide] at hlong hopposite
    have hacross : |(0 : K)| + min x y / 2 ≤ y / 2 := by rw [hshort, min_eq_right hwide]
    rw [if_pos (decide_eq_true hwide)]
    exact List.forall_mem_append.mpr
      ⟨within_cap h hradius hlong.le hacross, within_cap h hradius hopposite.le hacross⟩
  · have htall : x ≤ y := le_of_not_ge hwide
    rw [max_eq_right htall] at hlong hopposite
    have hacross : |(0 : K)| + min x y / 2 ≤ x / 2 := by rw [hshort, min_eq_left htall]
    rw [if_neg (by simpa using hwide)]
    exact List.forall_mem_append.mpr
      ⟨within_cap h hradius hacross hlong.le, within_cap h hradius hacross hopposite.le⟩

namespace Aperture

omit h [IsStrictOrderedRing K] in
/-- The sizes of an aperture that was let through are numbers that are not negative. -/
theorem exists_sides {a : Aperture (Exact K)} (hcheck : a.check = .ok ())
    (hfinite : a.size.Finite) :
    ∃ w t : K, a.size = ⟨.number w, .number t⟩ ∧ 0 ≤ w ∧ 0 ≤ t := by
  have hfits := check_eq_ok_iff.mp hcheck
  obtain ⟨w, hw, hwidth⟩ := Exact.nonneg_of_le hfinite.width hfits.width
  obtain ⟨t, ht, hheight⟩ := Exact.nonneg_of_le hfinite.height hfits.height
  exact ⟨w, t, congrArg₂ Size.mk hwidth hheight, hw, ht⟩

/-- Every point of the outline of an aperture is at most half of the width and half of the height
away from its middle. -/
theorem within_outline {a : Aperture (Exact K)} (hshape : a.shape.Finite) {w t : K}
    (hsize : a.size = ⟨.number w, .number t⟩) (hw : 0 ≤ w) (ht : 0 ≤ t) :
    ∀ p ∈ a.outline, p.Within (w / 2) (t / 2) := by
  -- A circle is drawn as a polygon of many corners, and both sides of its size are the diameter.
  obtain ⟨number, shape, hole⟩ := a
  have hhalfWidth : 0 ≤ w / 2 := div_nonneg hw zero_le_two
  have hhalfHeight : 0 ≤ t / 2 := div_nonneg ht zero_le_two
  cases shape with
  | circle diameter =>
      cases hsize
      simp only [outline, Exact.half_number, Exact.zero_eq]
      exact within_regularPolygon h hhalfWidth circlePoints 0
  | rectangle xSize ySize =>
      cases hsize
      simp only [outline, Exact.half_number]
      exact within_rectangleCorners hhalfWidth hhalfHeight
  | obround xSize ySize =>
      cases hsize
      exact within_obround h hw ht (by decide)
  | polygon outerDiameter vertices rotation =>
      cases hsize
      obtain ⟨degrees, hdegrees⟩ := Exact.exists_number (hshape.rotation _ _ _ rfl)
      have hrotation : Scalar.ofDegrees rotation =
          (.number (degrees * (Analytic.pi / 180)) : Exact K) := by
        have hstraight : (180.0 : Exact K) = .number 180 := by
          change Exact.number (180.0 : K) = _
          norm_num
        rw [hdegrees, Scalar.ofDegrees, hstraight]
        exact congrArg (Exact.number degrees * ·) (Exact.number_div (by norm_num))
      simp only [outline, Exact.half_number, hrotation]
      exact within_regularPolygon h hhalfWidth vertices _

omit h [IsStrictOrderedRing K] in
theorem three_le_length_outline {a : Aperture (Exact K)} (h : a.shape.hasVertices = true) :
    3 ≤ a.outline.length := by
  obtain ⟨number, shape, hole⟩ := a
  cases shape with
  | circle diameter => simp [outline, regularPolygon, circlePoints]
  | rectangle xSize ySize => exact (by decide : 3 ≤ 4)
  | obround xSize ySize =>
      dsimp only [outline, Obround.outline]
      split <;> simp [Obround.capAngles, circlePoints]
  | polygon outerDiameter vertices rotation =>
      have hvertices := Shape.hasVertices_iff.mp h _ _ _ rfl
      simpa [outline, regularPolygon] using hvertices.1

/-- Wherever an aperture that can be made is stamped, its outline lies in its footprint. -/
theorem outline_in_footprint {number : ℕ} {shape : Shape (Exact K)} {hole : Option (Hole (Exact K))}
    {a : Aperture (Exact K)} (hmake : make number shape hole = .ok a) (hshape : shape.Finite)
    {p : Point (Exact K)} (hp : p.Finite) :
    3 ≤ a.outline.length ∧
      ∀ corner ∈ a.outline, (a.footprint p).Holds ⟨corner.x + p.x, corner.y + p.y⟩ := by
  obtain ⟨rfl, hcheck⟩ := make_eq_ok_iff.mp hmake
  obtain ⟨w, t, hsize, hw, ht⟩ := exists_sides hcheck hshape.size
  have hvertices := (check_eq_ok_iff.mp hcheck).vertices
  refine ⟨three_le_length_outline (Shape.hasVertices_iff.mpr hvertices), fun corner hcorner => ?_⟩
  rw [footprint, half, hsize, Exact.half_number, Exact.half_number]
  exact Box.holds_around_of_within hp (within_outline h hshape hsize hw ht corner hcorner)

end Aperture

end Shapes

section Turned

attribute [local instance] Gerber.Document.reals

theorem bounded_reals : Analytic.Bounded ℝ where
  abs_sin_le := Real.abs_sin_le_one
  abs_cos_le := Real.abs_cos_le_one

/-- A hexagon, turned by half of the angle between its corners, lies in the square around its
circle. -/
theorem Aperture.outline_in_footprint_turned :
    let shape : Shape (Exact ℝ) := .polygon (.number 1) 6 (.number 30)
    let p : Point (Exact ℝ) := ⟨.number 2, .number (-3)⟩
    Analytic.Bounded ℝ ∧ shape.Finite ∧ p.Finite ∧
      ∃ a, make 10 shape none = .ok a ∧ 3 ≤ a.outline.length ∧
        ∀ corner ∈ a.outline, (a.footprint p).Holds ⟨corner.x + p.x, corner.y + p.y⟩ := by
  intro shape p
  have hshape : shape.Finite := by
    refine ⟨⟨rfl, rfl⟩, fun diameter vertices rotation heq => ?_⟩
    cases Shape.polygon.inj heq |>.2.2
    rfl
  have hp : p.Finite := ⟨rfl, rfl⟩
  have hmake : make 10 shape none = .ok ⟨10, shape, none⟩ := by
    have hone : (0.0 : Exact ℝ) ≤ .number 1 := by
      rw [Exact.zero_eq, Exact.number_le_number]
      exact zero_le_one
    refine make_eq_ok_iff.mpr ⟨rfl, check_eq_ok_iff.mpr ⟨hone, hone, ?_, nofun⟩⟩
    intro diameter vertices rotation heq
    cases Shape.polygon.inj heq |>.2.1
    decide
  exact ⟨bounded_reals, hshape, hp, _, hmake, outline_in_footprint bounded_reals hmake hshape hp⟩

end Turned

end BoardMill
