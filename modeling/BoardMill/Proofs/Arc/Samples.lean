import BoardMill.Proofs.Arc.Passing
import BoardMill.Proofs.Box.Outward
import BoardMill.Proofs.Gerber.Ready

/-! # How far out the points of an arc lie

The ends of the chords of an arc lie on the circle through its start, and so the last of them
is not the given end unless that is as far from the center. Along every half axis each of
them is outdone by the start, by the given end, or by the outermost point of the circle if
the arc passes it, up to the distance of the given end from the circle and the tolerance of
sine and cosine.
-/

namespace BoardMill

open Complex (arg I)

namespace Arc

/-- How far a point is from the circle of an arc. -/
def gap {α : Type} [Scalar α] (a : Arc α) (p : Point α) : α :=
  Scalar.abs
    (Scalar.sqrt (Scalar.sq (p.x - a.center.x) + Scalar.sq (p.y - a.center.y)) - a.radius)

/-- How far the points of an arc toward an end may lie out of the box of the arc, given the
tolerance of sine and cosine. -/
def slack {α : Type} [Scalar α] (a : Arc α) (finish : Point α) (tolerance : α) : α :=
  a.gap finish + 2.0 * a.radius * tolerance

variable [Analytic ℝ] {tolerance : ℝ}

/-- The arc around a center from an angle through a sweep. -/
def real (center : ℂ) (radius start sweep : ℝ) : Arc (Exact ℝ) :=
  ⟨.ofComplex center, .number radius, .number start, .number sweep⟩

theorem sqrt_sq_add_sq_number (haccurate : Analytic.Accurate tolerance) (z : ℂ) :
    Scalar.sqrt (Scalar.sq (.number z.re) + Scalar.sq (.number z.im)) = Exact.number ‖z‖ := by
  rw [Scalar.sq, Scalar.sq, Exact.number_mul, Exact.number_mul, Exact.number_add, ← pow_two,
    ← pow_two]
  change Exact.sqrt (.number _) = _
  rw [Exact.sqrt, if_neg (not_lt.mpr (by positivity)), haccurate.sqrt,
    Complex.norm_eq_sqrt_sq_add_sq]

theorem sqrt_sq_add_sq (haccurate : Analytic.Accurate tolerance) (z c : ℂ) :
    Scalar.sqrt (Scalar.sq ((Point.ofComplex z).x - (Point.ofComplex c).x) +
      Scalar.sq ((Point.ofComplex z).y - (Point.ofComplex c).y)) = Exact.number ‖z - c‖ := by
  rw [Point.ofComplex, Point.ofComplex, Exact.number_sub, Exact.number_sub]
  exact sqrt_sq_add_sq_number haccurate (z - c)

theorem turn_eq (haccurate : Analytic.Accurate tolerance) :
    (Scalar.turn : Exact ℝ) = .number (2 * Real.pi) := by
  rw [Exact.turn_eq, haccurate.pi]

/-- A sweep is the difference of two angles, or leads a turn on from it where the difference does
not have the sign of the way. -/
inductive IsSweep (start finish : ℝ) : Bool → ℝ → Prop
  | clockwise (h : finish - start < -1e-12) : IsSweep start finish true (finish - start)
  | clockwiseOn (h : -1e-12 ≤ finish - start) :
      IsSweep start finish true (finish - start - 2 * Real.pi)
  | counterclockwise (h : 1e-12 < finish - start) : IsSweep start finish false (finish - start)
  | counterclockwiseOn (h : finish - start ≤ 1e-12) :
      IsSweep start finish false (finish - start + 2 * Real.pi)

/-- Whichever way a sweep turns, it leads to the end. -/
theorem exists_sweepBetween (haccurate : Analytic.Accurate tolerance) (start finish : ℝ)
    (clockwise : Bool) :
    ∃ (sweep : ℝ) (n : ℤ),
      sweepBetween (.number start) (.number finish) clockwise = Exact.number sweep ∧
        start + sweep = finish + n * (2 * Real.pi) ∧ IsSweep start finish clockwise sweep := by
  have hlower : (-1e-12 : Exact ℝ) = .number (-1e-12) := rfl
  have hupper : (1e-12 : Exact ℝ) = .number 1e-12 := rfl
  unfold sweepBetween
  dsimp only
  rw [turn_eq haccurate, hlower, hupper, Exact.number_sub, Exact.number_sub, Exact.number_add]
  simp only [Exact.number_le_number]
  cases clockwise with
  | true =>
      rw [if_pos rfl]
      split
      next h => exact ⟨_, -1, rfl, by push_cast; ring, .clockwiseOn h⟩
      next h => exact ⟨_, 0, rfl, by push_cast; ring, .clockwise (not_le.mp h)⟩
  | false =>
      rw [if_neg Bool.false_ne_true]
      split
      next h => exact ⟨_, 1, rfl, by push_cast; ring, .counterclockwiseOn h⟩
      next h => exact ⟨_, 0, rfl, by push_cast; ring, .counterclockwise (not_le.mp h)⟩

theorem ofPoints?_eq (haccurate : Analytic.Accurate tolerance) (start finish c : ℂ)
    (clockwise : Bool) :
    ofPoints? (.ofComplex start) (.ofComplex finish) (.ofComplex c) clockwise =
      if Exact.number ‖start - c‖ < 1e-9 then none
      else some ⟨.ofComplex c, .number ‖start - c‖, .number (arg (start - c)),
        sweepBetween (.number (arg (start - c))) (.number (arg (finish - c))) clockwise⟩ := by
  have hangle (z : ℂ) :
      Scalar.angle ((Point.ofComplex z).y - (Point.ofComplex c).y)
        ((Point.ofComplex z).x - (Point.ofComplex c).x) = Exact.number (arg (z - c)) := by
    rw [Point.ofComplex, Point.ofComplex, Exact.number_sub, Exact.number_sub]
    change Exact.number (Analytic.angle _ _) = _
    rw [haccurate.angle]
    rfl
  unfold ofPoints?
  dsimp only
  rw [sqrt_sq_add_sq haccurate, hangle, hangle]

/-- An arc between points starts at the angle and the distance of the first point, and ends
at the angle of the second one. -/
theorem exists_real_of_ofPoints? (haccurate : Analytic.Accurate tolerance) {start finish c : ℂ}
    {clockwise : Bool} {a : Arc (Exact ℝ)}
    (h : ofPoints? (.ofComplex start) (.ofComplex finish) (.ofComplex c) clockwise = some a) :
    ∃ (sweep : ℝ) (n : ℤ), a = real c ‖start - c‖ (arg (start - c)) sweep ∧
      arg (start - c) + sweep = arg (finish - c) + n * (2 * Real.pi) := by
  obtain ⟨sweep, n, hsweep, hend, -⟩ :=
    exists_sweepBetween haccurate (arg (start - c)) (arg (finish - c)) clockwise
  rw [ofPoints?_eq haccurate, hsweep] at h
  obtain ⟨-, ha⟩ := Option.ite_none_left_eq_some.mp h
  cases ha
  exact ⟨sweep, n, rfl, hend⟩

/-! ## The points and the outermost points -/

section

variable {c : ℂ} {radius start sweep : ℝ}

theorem pointAt_real (angle : ℝ) :
    (real c radius start sweep).pointAt (.number angle) =
      .ofComplex (c + radius * ⟨Analytic.cos angle, Analytic.sin angle⟩) := by
  rw [Point.ofComplex, Complex.add_re, Complex.add_im, Complex.re_ofReal_mul,
    Complex.im_ofReal_mul]
  rfl

/-- The points of an arc lie at angles between its start and its end. -/
theorem exists_angle_of_mem_points {p : Point (Exact ℝ)}
    (hp : p ∈ (real c radius start sweep).points) :
    ∃ t ∈ Set.uIcc start (start + sweep),
      p = .ofComplex (c + radius * ⟨Analytic.cos t, Analytic.sin t⟩) := by
  obtain ⟨t, ht, rfl⟩ := exists_angle_of_mem_points_exact hp
  exact ⟨t, ht, pointAt_real t⟩

/-- The last point of an arc is the point of its circle at the end, not the given end. -/
theorem pointAt_end_mem_points :
    (real c radius start sweep).pointAt (.number (start + sweep)) ∈
      (real c radius start sweep).points := by
  have hcount : ((real c radius start sweep).chords : ℝ) ≠ 0 :=
    Nat.cast_ne_zero.mpr (chords_pos _).ne'
  refine List.mem_map.mpr ⟨(real c radius start sweep).chords, List.self_mem_range_succ, ?_⟩
  dsimp only
  rw [Exact.ofNat_eq, Exact.number_div hcount, div_self hcount]
  change pointAt _ (Exact.number start + Exact.number 1 * Exact.number sweep) = _
  rw [Exact.number_mul, one_mul, Exact.number_add]

theorem passes_real_iff (haccurate : Analytic.Accurate tolerance) {angle : ℝ} :
    (real c radius start sweep).passes (.number angle) = true ↔
      let turned := if 0 ≤ sweep then angle - start else start - angle
      turned - 2 * Real.pi * ⌊turned / (2 * Real.pi)⌋ ≤ |sweep| + 1e-12 := by
  rw [← haccurate.pi]
  exact passes_exact_iff haccurate.pi_pos

/-- A point made of the evaluated sine and cosine of an angle lies about as far out as that of
the angle itself. -/
theorem abs_outward_sub_le (haccurate : Analytic.Accurate tolerance) (t : ℝ) (k : Fin 4) :
    |outward ⟨Analytic.cos t, Analytic.sin t⟩ k - Real.cos (t - k * Real.pi / 2)| ≤ tolerance := by
  have hsplit : outward ⟨Analytic.cos t, Analytic.sin t⟩ k =
      outward (⟨Analytic.cos t, Analytic.sin t⟩ - Complex.exp (t * I)) k +
        outward (Complex.exp (t * I)) k := by
    rw [← outward_add, sub_add_cancel]
  rw [← outward_exp, hsplit, add_sub_cancel_right]
  apply abs_outward_le
  · rw [Complex.sub_re, Complex.exp_ofReal_mul_I_re]
    exact haccurate.cos t
  · rw [Complex.sub_im, Complex.exp_ofReal_mul_I_im]
    exact haccurate.sin t

theorem slack_real (haccurate : Analytic.Accurate tolerance) (finish : ℂ) :
    (real c radius start sweep).slack (.ofComplex finish) (.number tolerance) =
      .number (|‖finish - c‖ - radius| + 2 * radius * tolerance) := by
  unfold slack gap real
  dsimp only
  rw [sqrt_sq_add_sq haccurate, Exact.number_sub, Exact.two_eq, Exact.number_mul,
    Exact.number_mul]
  rfl

theorem mem_axisAngles_iff (haccurate : Analytic.Accurate tolerance) {angle : Exact ℝ} :
    angle ∈ axisAngles ↔ ∃ k : Fin 4, angle = .number (k * Real.pi / 2) := by
  rw [← haccurate.pi]
  exact mem_axisAngles_exact_iff

/-- An arc that passes a half axis has the outermost point of its circle there. -/
theorem mem_axisExtremes (haccurate : Analytic.Accurate tolerance) {k : Fin 4} {n : ℤ}
    (h : k * Real.pi / 2 + n * (2 * Real.pi) ∈ Set.uIcc start (start + sweep)) :
    (real c radius start sweep).pointAt (.number (k * Real.pi / 2)) ∈
      (real c radius start sweep).axisExtremes := by
  rw [← haccurate.pi] at h ⊢
  exact mem_axisExtremes_exact haccurate.pi_pos h

end

/-- Every point of an arc is outdone along every half axis, up to the slack: by the start, by
the given end, or by the outermost point of the circle there. -/
theorem exists_outward_le (haccurate : Analytic.Accurate tolerance) {start finish c : ℂ}
    {clockwise : Bool} {a : Arc (Exact ℝ)}
    (h : ofPoints? (.ofComplex start) (.ofComplex finish) (.ofComplex c) clockwise = some a) :
    ∃ m : ℝ, a.slack (.ofComplex finish) (.number tolerance) = .number m ∧
      ∀ p ∈ a.points, ∃ z, p = .ofComplex z ∧ ∀ k, ∃ q,
        (q = start ∨ q = finish ∨ .ofComplex q ∈ a.axisExtremes) ∧
          outward z k ≤ outward q k + m := by
  obtain ⟨sweep, turns, rfl, hend⟩ := exists_real_of_ofPoints? haccurate h
  refine ⟨_, slack_real haccurate finish, fun p hp => ?_⟩
  obtain ⟨t, ht, rfl⟩ := exists_angle_of_mem_points hp
  refine ⟨_, rfl, fun k => ?_⟩
  set radius := ‖start - c‖
  have hradius : 0 ≤ radius := norm_nonneg _
  have htolerance : 0 ≤ radius * tolerance := mul_nonneg hradius haccurate.nonneg
  have hgap : 0 ≤ |‖finish - c‖ - radius| := abs_nonneg _
  -- The sampled point lies out by the cosine of its angle from the half axis.
  have hsample : outward (c + radius * ⟨Analytic.cos t, Analytic.sin t⟩) k ≤
      outward c k + radius * Real.cos (t - k * Real.pi / 2) + radius * tolerance := by
    have hnear := (abs_le.mp (abs_outward_sub_le haccurate t k)).2
    rw [outward_add, outward_ofReal_mul]
    linarith [mul_le_mul_of_nonneg_left hnear hradius]
  rcases cos_le_or_peak (k * Real.pi / 2) ht with hle | hle | ⟨n, hn⟩
  · refine ⟨start, .inl rfl, ?_⟩
    rw [outward_eq start c]
    linarith [mul_le_mul_of_nonneg_left hle hradius]
  · refine ⟨finish, .inr (.inl rfl), ?_⟩
    rw [hend, add_sub_right_comm, Real.cos_add_int_mul_two_pi] at hle
    have hoff : (radius - ‖finish - c‖) * Real.cos (arg (finish - c) - k * Real.pi / 2) ≤
        |‖finish - c‖ - radius| := by
      refine (le_abs_self _).trans ?_
      rw [abs_mul, abs_sub_comm]
      exact mul_le_of_le_one_right hgap (Real.abs_cos_le_one _)
    rw [outward_eq finish c]
    linarith [mul_le_mul_of_nonneg_left hle hradius]
  · refine ⟨c + radius * ⟨Analytic.cos (k * Real.pi / 2), Analytic.sin (k * Real.pi / 2)⟩,
      .inr (.inr ?_), ?_⟩
    · rw [← pointAt_real]
      exact mem_axisExtremes haccurate hn
    · have hnear := (abs_le.mp (abs_outward_sub_le haccurate (k * Real.pi / 2) k)).1
      have hpeak := Real.cos_le_one (t - k * Real.pi / 2)
      rw [sub_self, Real.cos_zero] at hnear
      have houtermost : outward c k + radius - radius * tolerance ≤ outward
          (c + radius * ⟨Analytic.cos (k * Real.pi / 2), Analytic.sin (k * Real.pi / 2)⟩) k := by
        rw [outward_add, outward_ofReal_mul]
        linarith [mul_le_mul_of_nonneg_left hnear hradius]
      linarith [mul_le_mul_of_nonneg_left hpeak hradius]

end Arc

end BoardMill
