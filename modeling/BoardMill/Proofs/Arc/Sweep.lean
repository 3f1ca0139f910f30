import BoardMill.Proofs.Arc.Samples
import BoardMill.Proofs.Gerber.Paths
import BoardMill.Proofs.Scalar.Signed

/-! # How far arcs turn

An arc turns the way it is told, through a full turn at most, until it reaches the direction of
its end, and comes back to its start after a full turn if that is its end as well. The directions
jump by a turn at the negative half axis, and there the signs of zeros tell on which side of the
jump an end lies. An arc from one side of the jump straight to the other one does not turn at
all, although its ends may be equal.
-/

namespace BoardMill.Arc

open Signed (IsDirection)

/-- Both ends lie in the direction where angles jump, on different sides of the jump, and the way
of the arc leads across it. -/
structure OnSeam {K : Type} [Field K] [LinearOrder K] [FloorRing K] [Analytic K]
    (start finish center : Point (Signed K)) (clockwise : Bool) : Prop where
  start : start.y - center.y = .zero clockwise ∧ (start.x - center.x).isMinus = true
  finish : finish.y - center.y = .zero (!clockwise) ∧ (finish.x - center.x).isMinus = true

/-! ## Real sweeps -/

section

variable {first last sweep : ℝ}

/-- Whole turns of at most one full turn are none or one. -/
theorem abs_eq_of_turns {n : ℤ} (hturns : sweep = n * (2 * Real.pi)) (hne : sweep ≠ 0)
    (hle : |sweep| ≤ 2 * Real.pi + 1e-12) : |sweep| = 2 * Real.pi := by
  have hturn : 0 < 2 * Real.pi := Real.two_pi_pos
  have habs : |sweep| = |n| * (2 * Real.pi) := by
    rw [hturns, abs_mul, abs_of_pos hturn, Int.cast_abs]
  have hone : 1 ≤ |n| := by
    refine Int.one_le_abs fun h => hne ?_
    rw [hturns, h, Int.cast_zero, zero_mul]
  have htwo : |n| < 2 := by
    have hless : (|n| : ℝ) * (2 * Real.pi) < 2 * (2 * Real.pi) := by
      have hsmall : (1e-12 : ℝ) < 1 := by norm_num
      rw [← Int.cast_abs, ← habs]
      linarith [Real.two_le_pi]
    exact_mod_cast lt_of_mul_lt_mul_right hless hturn.le
  have hn : |n| = 1 := by omega
  rw [habs, hn, Int.cast_one, one_mul]

/-- A counter-clockwise sweep is not negative and at most a full turn. It is none only from the
greatest of the angles to the least one. -/
theorem counterclockwise_bounds (hfirst : first ∈ Set.Icc (-Real.pi) Real.pi)
    (hlast : last ∈ Set.Icc (-Real.pi) Real.pi)
    (h : IsSweep first last false sweep) :
    0 ≤ sweep ∧ sweep ≤ 2 * Real.pi + 1e-12 ∧
      (sweep = 0 ↔ first = Real.pi ∧ last = -Real.pi) := by
  obtain ⟨hfirst, hfirst'⟩ := hfirst
  obtain ⟨hlast, hlast'⟩ := hlast
  have hsmall : (0 : ℝ) < 1e-12 := by norm_num
  have hpi := Real.two_le_pi
  cases h with
  | counterclockwise h =>
      refine ⟨by linarith, by linarith, fun hzero => by linarith, ?_⟩
      rintro ⟨rfl, rfl⟩
      linarith
  | counterclockwiseOn h =>
      refine ⟨by linarith, by linarith, fun hzero => ⟨by linarith, by linarith⟩, ?_⟩
      rintro ⟨rfl, rfl⟩
      ring

/-- A sweep is at most a full turn, and has the sign of its way unless it leads from one end of
the angles to the other one. -/
theorem sweep_bounds {clockwise : Bool} (hfirst : first ∈ Set.Icc (-Real.pi) Real.pi)
    (hlast : last ∈ Set.Icc (-Real.pi) Real.pi)
    (h : IsSweep first last clockwise sweep) :
    |sweep| ≤ 2 * Real.pi + 1e-12 ∧
      (sweep ≠ 0 → if clockwise then sweep < 0 else 0 < sweep) ∧
      (sweep = 0 ↔ first = (if clockwise then -Real.pi else Real.pi) ∧
        last = if clockwise then Real.pi else -Real.pi) := by
  cases clockwise with
  | false =>
      obtain ⟨hnonneg, hle, hzero⟩ := counterclockwise_bounds hfirst hlast h
      exact ⟨(abs_of_nonneg hnonneg).trans_le hle, fun hne => hnonneg.lt_of_ne' hne, hzero⟩
  | true =>
      -- Seen from the end, a clockwise arc turns counter-clockwise.
      have hback : IsSweep last first false (-sweep) := by
        cases h with
        | clockwise h => exact neg_sub last first ▸ .counterclockwise (by linarith)
        | clockwiseOn h =>
            have hturn : -(last - first - 2 * Real.pi) = first - last + 2 * Real.pi := by ring
            exact hturn ▸ .counterclockwiseOn (by linarith)
      obtain ⟨hnonneg, hle, hzero⟩ := counterclockwise_bounds hlast hfirst hback
      have hnonpos : sweep ≤ 0 := neg_nonneg.mp hnonneg
      exact ⟨(abs_of_nonpos hnonpos).trans_le hle, fun hne => hnonpos.lt_of_ne hne,
        neg_eq_zero.symm.trans (hzero.trans and_comm)⟩

end

/-! ## Arcs between signed points -/

section

variable {K : Type} [Field K] [LinearOrder K] [FloorRing K] [Analytic K]

theorem value_turn : (Scalar.turn : Signed K).value = Scalar.turn := Signed.value_mul _ _

theorem value_sweepBetween (first last : Signed K) (clockwise : Bool) :
    (sweepBetween first last clockwise).value =
      sweepBetween first.value last.value clockwise := by
  have hlower : (-1e-12 : Signed K).value = -1e-12 := Signed.value_neg _
  have hupper : (1e-12 : Signed K).value = 1e-12 := rfl
  unfold sweepBetween
  dsimp only
  simp only [Signed.le_iff, hlower, hupper, Signed.value_sub]
  split <;> split <;> simp only [Signed.value_sub, Signed.value_add, value_turn]

end

section

variable [Analytic ℝ] {tolerance : ℝ} {start finish center : Point (Signed ℝ)} {clockwise : Bool}
  {z w : ℂ} {a : Arc (Signed ℝ)}

/-- The plain way from the center to a point. -/
structure IsOffset (p center : Point (Signed ℝ)) (z : ℂ) : Prop where
  x : (p.x - center.x).value = .number z.re
  y : (p.y - center.y).value = .number z.im

theorem exists_isOffset (hstart : start.Finite) (hcenter : center.Finite) :
    ∃ z, IsOffset start center z := by
  obtain ⟨x, hx⟩ := Exact.exists_number hstart.x
  obtain ⟨y, hy⟩ := Exact.exists_number hstart.y
  obtain ⟨cx, hcx⟩ := Exact.exists_number hcenter.x
  obtain ⟨cy, hcy⟩ := Exact.exists_number hcenter.y
  refine ⟨⟨x - cx, y - cy⟩, ?_, ?_⟩
  · rw [Signed.value_sub, hx, hcx, Exact.number_sub]
  · rw [Signed.value_sub, hy, hcy, Exact.number_sub]

/-- Equal points are in the same place as seen from the center. -/
theorem IsOffset.eq_of_beq (hz : IsOffset start center z) (hw : IsOffset finish center w)
    (h : (start == finish) = true) : z = w := by
  have hequal : (start.x == finish.x && start.y == finish.y) = true := h
  rw [Bool.and_eq_true] at hequal
  have hx := hz.x
  have hy := hz.y
  rw [Signed.value_sub, Exact.eq_of_beq hequal.1, ← Signed.value_sub, hw.x] at hx
  rw [Signed.value_sub, Exact.eq_of_beq hequal.2, ← Signed.value_sub, hw.y] at hy
  exact Complex.ext (Exact.number.inj hx).symm (Exact.number.inj hy).symm

/-- There is an arc unless the start is too near to the center. -/
theorem isSome_ofPoints?_iff (haccurate : Analytic.Accurate tolerance)
    (hz : IsOffset start center z) :
    (ofPoints? start finish center clockwise).isSome = true ↔ 1e-9 ≤ ‖z‖ := by
  have hradius : Scalar.sqrt (Scalar.sq (start.x - center.x) + Scalar.sq (start.y - center.y)) <
      (1e-9 : Signed ℝ) ↔ ‖z‖ < 1e-9 := by
    rw [Signed.lt_iff, Signed.value_sqrt, Signed.value_add, Scalar.sq, Scalar.sq,
      Signed.value_mul, Signed.value_mul, hz.x, hz.y]
    change Scalar.sqrt (Scalar.sq (Exact.number z.re) + Scalar.sq (Exact.number z.im)) <
      .number 1e-9 ↔ _
    rw [sqrt_sq_add_sq_number haccurate, Exact.number_lt_number]
  unfold ofPoints?
  dsimp only
  split
  next h => simpa using hradius.mp h
  next h => simpa using (hradius.not.mp h)

/-- An arc is on the seam if its angles lead from one end of the angles to the other one. -/
theorem onSeam_iff {z w : ℂ} {first last : ℝ}
    (hfirst : IsDirection (start.y - center.y) (start.x - center.x) z first)
    (hlast : IsDirection (finish.y - center.y) (finish.x - center.x) w last) :
    OnSeam start finish center clockwise ↔ first = (if clockwise then -Real.pi else Real.pi) ∧
      last = if clockwise then Real.pi else -Real.pi := by
  cases clockwise with
  | true =>
      simp only [if_true]
      rw [hfirst.eq_neg_pi_iff, hlast.eq_pi_iff]
      exact ⟨fun h => ⟨h.start, h.finish⟩, fun h => ⟨h.1, h.2⟩⟩
  | false =>
      simp only [Bool.false_eq_true, if_false]
      rw [hfirst.eq_pi_iff, hlast.eq_neg_pi_iff]
      exact ⟨fun h => ⟨h.start, h.finish⟩, fun h => ⟨h.1, h.2⟩⟩

/-- What an arc sweeps leads to the direction of its end, the way it is told, unless the arc is on
the seam. -/
theorem exists_sweep (haccurate : Analytic.Accurate tolerance) {first last : ℝ}
    (hstart : (Scalar.angle (start.y - center.y) (start.x - center.x)).value = .number first)
    (hfirst : IsDirection (start.y - center.y) (start.x - center.x) z first)
    (hfinish : (Scalar.angle (finish.y - center.y) (finish.x - center.x)).value = .number last)
    (hlast : IsDirection (finish.y - center.y) (finish.x - center.x) w last)
    (h : ofPoints? start finish center clockwise = some a) :
    ∃ (sweep : ℝ) (n : ℤ), a.sweep.value = .number sweep ∧
      first + sweep = last + n * (2 * Real.pi) ∧ |sweep| ≤ 2 * Real.pi + 1e-12 ∧
      (sweep ≠ 0 → if clockwise then sweep < 0 else 0 < sweep) ∧
      (sweep = 0 ↔ OnSeam start finish center clockwise) := by
  obtain ⟨-, -, hstartAngle, hsweepAngle⟩ := of_ofPoints? h
  obtain ⟨sweep, n, hsweep, hturns, hcases⟩ :=
    exists_sweepBetween haccurate first last clockwise
  obtain ⟨hle, hsign, hzero⟩ := sweep_bounds hfirst.mem hlast.mem hcases
  refine ⟨sweep, n, ?_, hturns, hle, hsign, hzero.trans (onSeam_iff hfirst hlast).symm⟩
  rw [hsweepAngle, value_sweepBetween, hstartAngle, hstart, hfinish, hsweep]

/-- An arc between finite points has the sign of its way and makes at most a full turn, and a
little, until it reaches the direction of its end, and it is a full circle if its ends are equal,
unless both of them lie on the seam. There it does not turn at all. -/
theorem sweep_leads_to_end (haccurate : Analytic.Accurate tolerance) (hstart : start.Finite)
    (hfinish : finish.Finite) (hcenter : center.Finite)
    (h : ofPoints? start finish center clockwise = some a) :
    ∃ first last sweep : ℝ, a.startAngle.value = .number first ∧ a.sweep.value = .number sweep ∧
      (Scalar.angle (finish.y - center.y) (finish.x - center.x)).value = .number last ∧
      (∃ n : ℤ, first + sweep = last + n * (2 * Real.pi)) ∧
      |sweep| ≤ 2 * Real.pi + 1e-12 ∧
      (¬ OnSeam start finish center clockwise →
        (if clockwise then sweep < 0 else 0 < sweep) ∧
          ((start == finish) = true → |sweep| = 2 * Real.pi)) ∧
      (OnSeam start finish center clockwise → sweep = 0) := by
  obtain ⟨z, hz⟩ := exists_isOffset hstart hcenter
  obtain ⟨w, hw⟩ := exists_isOffset hfinish hcenter
  obtain ⟨first, hfirst, hfirstDirection⟩ := Signed.exists_isDirection haccurate hz.x hz.y
  obtain ⟨last, hlast, hlastDirection⟩ := Signed.exists_isDirection haccurate hw.x hw.y
  obtain ⟨sweep, n, hsweep, hturns, hle, hsign, hzero⟩ :=
    exists_sweep haccurate hfirst hfirstDirection hlast hlastDirection h
  refine ⟨first, last, sweep, (of_ofPoints? h).2.2.1 ▸ hfirst, hsweep, hlast, ⟨n, hturns⟩, hle,
    fun hoff => ?_, hzero.mpr⟩
  have hne : sweep ≠ 0 := hoff ∘ hzero.mp
  refine ⟨hsign hne, fun hequal => ?_⟩
  -- Equal ends lie in one direction, so that the arc makes whole turns.
  obtain rfl : z = w := hz.eq_of_beq hw hequal
  have hcenterless : z ≠ 0 := by
    rintro rfl
    have hsome := (isSome_ofPoints?_iff haccurate hz).mp (Option.isSome_of_eq_some h)
    rw [norm_zero] at hsome
    norm_num at hsome
  obtain ⟨i, hi⟩ := hfirstDirection.arg hcenterless
  obtain ⟨j, hj⟩ := hlastDirection.arg hcenterless
  refine abs_eq_of_turns (n := j + n - i) ?_ hne hle
  push_cast
  linarith

end

/-! ## A lost circle -/

section Left

attribute [local instance] Gerber.Document.reals

open Gerber.Document (accurate_reals)

/-- The leftmost point of the unit circle, with either zero. -/
noncomputable def left (minus : Bool) : Point (Signed ℝ) := ⟨.plain (.number (-1)), .zero minus⟩

noncomputable def origin : Point (Signed ℝ) := ⟨.zero false, .zero false⟩

theorem finite_left (minus : Bool) : (left minus).Finite := by cases minus <;> exact ⟨rfl, rfl⟩

theorem finite_origin : origin.Finite := ⟨rfl, rfl⟩

theorem left_beq_left (m n : Bool) : (left m == left n) = true := by
  have hrefl {a b : Signed ℝ} {x : ℝ} (ha : a.value = .number x) (hb : b.value = .number x) :
      (a == b) = true := by
    change (a.value.ble b.value && b.value.ble a.value) = true
    rw [ha, hb, Bool.and_self]
    exact decide_eq_true le_rfl
  have hx : ((left m).x == (left n).x) = true := hrefl rfl rfl
  have hy : ((left m).y == (left n).y) = true :=
    hrefl (Signed.value_zero m) (Signed.value_zero n)
  exact Bool.and_eq_true_iff.mpr ⟨hx, hy⟩

theorem isOffset_left (minus : Bool) : IsOffset (left minus) origin (-1) where
  x := by
    rw [Signed.value_sub]
    change Exact.number (-1) - Exact.number 0 = _
    rw [Exact.number_sub, sub_zero, Complex.neg_re, Complex.one_re]
  y := by
    change (Signed.zero minus - Signed.zero false : Signed ℝ).value = _
    rw [Signed.zero_sub_zero, Signed.value_zero, Complex.neg_im, Complex.one_im, neg_zero]

theorem isMinus_left (minus : Bool) : ((left minus).x - origin.x).isMinus = true := by
  rw [Signed.isMinus_iff (isOffset_left minus).x] <;> simp

theorem exists_ofPoints?_left (m n clockwise : Bool) :
    ∃ a, ofPoints? (left m) (left n) origin clockwise = some a := by
  rw [← Option.isSome_iff_exists, isSome_ofPoints?_iff accurate_reals (isOffset_left m)]
  norm_num

/-- From the leftmost point of the unit circle back to it, a turn with one zero for both ends. -/
theorem sweep_leads_to_end_left : ∃ a sweep, (left false).Finite ∧ origin.Finite ∧
    ofPoints? (left false) (left false) origin false = some a ∧
      a.sweep.value = .number sweep ∧ 0 < sweep ∧ |sweep| = 2 * Real.pi := by
  obtain ⟨a, ha⟩ := exists_ofPoints?_left false false false
  obtain ⟨first, last, sweep, -, hsweep, -, -, -, hoff, -⟩ := sweep_leads_to_end accurate_reals
    (finite_left false) (finite_left false) finite_origin ha
  have hseam : ¬ OnSeam (left false) (left false) origin false := fun h => by
    have hzero := h.finish.1
    change (Signed.zero false - Signed.zero false : Signed ℝ) = _ at hzero
    rw [Signed.zero_sub_zero] at hzero
    exact Bool.false_ne_true (Signed.zero_injective hzero)
  obtain ⟨hsign, hcircle⟩ := hoff hseam
  exact ⟨a, sweep, finite_left false, finite_origin, ha, hsweep, hsign,
    hcircle (left_beq_left false false)⟩

/-- With the other zero for the end there is no turn, although the ends are equal. -/
theorem lost_circle : ∃ a, ofPoints? (left false) (left true) origin false = some a ∧
    (left false == left true) = true ∧ a.sweep.value = .number 0 := by
  obtain ⟨a, ha⟩ := exists_ofPoints?_left false true false
  obtain ⟨first, hfirst, hfirstDirection⟩ :=
    Signed.exists_isDirection accurate_reals (isOffset_left false).x (isOffset_left false).y
  obtain ⟨last, hlast, hlastDirection⟩ :=
    Signed.exists_isDirection accurate_reals (isOffset_left true).x (isOffset_left true).y
  obtain ⟨sweep, -, hsweep, -, -, -, hzero⟩ :=
    exists_sweep accurate_reals hfirst hfirstDirection hlast hlastDirection ha
  have hseam : OnSeam (left false) (left true) origin false :=
    ⟨⟨Signed.zero_sub_zero false false, isMinus_left false⟩,
      ⟨Signed.zero_sub_zero true false, isMinus_left true⟩⟩
  rw [hzero.mpr hseam] at hsweep
  exact ⟨a, ha, left_beq_left false true, hsweep⟩

end Left

end BoardMill.Arc
