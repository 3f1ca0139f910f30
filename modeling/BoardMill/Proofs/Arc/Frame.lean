import BoardMill.Proofs.Arc.Passing
import BoardMill.Proofs.Box.Cover
import BoardMill.Proofs.Gerber.Paths
import BoardMill.Proofs.Scalar.Quarters

/-! # The box of an arc

The ends of an arc and the outermost points of its circle that it passes tell the box of the
arc. Between two neighbors among these angles and quarter turns, sine and cosine rise or fall
throughout, so no point of the arc in between lies beyond both.
-/

namespace BoardMill

namespace Box

section

variable {α : Type} [Scalar α]

/-- The smallest box around points. -/
def ofPoints (points : List (Point α)) : Box α := (points.map ofPoint).foldl cover empty

variable [OrderedScalar α] {b : Box α} {p : Point α} {points : List (Point α)}

omit [OrderedScalar α] in
theorem numeric_ofPoint (hx : Scalar.isNaN p.x = false) (hy : Scalar.isNaN p.y = false) :
    (ofPoint p).Numeric :=
  ⟨hx, hx, hy, hy⟩

theorem holds_ofPoints (hp : p ∈ points) (hnumeric : (ofPoint p).Numeric) :
    (ofPoints points).Holds p := by
  have hcontains : (ofPoints points).Contains (ofPoint p) :=
    (foldl_cover_contains numeric_empty _).2.2 _ (List.mem_map_of_mem hp) hnumeric
  exact ⟨hcontains.xMin, hcontains.xMax, hcontains.yMin, hcontains.yMax⟩

omit [OrderedScalar α] in
theorem Holds.reaches (h : b.Holds p) : b.Reaches (ofPoint p) where
  xMin _ := h.xMin
  xMax _ := h.xMax
  yMin _ := h.yMin
  yMax _ := h.yMax

theorem contains_ofPoints (h : ∀ q ∈ p :: points, b.Holds q) :
    b.Contains (ofPoints (p :: points)) := by
  have hb : b.Numeric := (h p List.mem_cons_self).numeric
  refine Reaches.contains (reaches_foldl_cover_iff.mpr ⟨(Reaches.refl b).empty hb, ?_⟩)
    (numeric_empty.foldl_cover _)
  rintro _ hbox
  obtain ⟨q, hq, rfl⟩ := List.mem_map.mp hbox
  exact (h q hq).reaches

end

variable {K : Type} [Field K] [LinearOrder K] [FloorRing K] [Analytic K]

/-- A box holds what lies between points that it holds. -/
theorem Holds.between {b : Box (Exact K)} {x₁ x₂ x y₁ y₂ y : K}
    (h₁ : b.Holds ⟨.number x₁, .number y₁⟩) (h₂ : b.Holds ⟨.number x₂, .number y₂⟩)
    (hx : x ∈ Set.uIcc x₁ x₂) (hy : y ∈ Set.uIcc y₁ y₂) :
    b.Holds ⟨.number x, .number y⟩ := by
  have habove {a : Exact K} {u v w : K} (hu : a ≤ .number u) (hv : a ≤ .number v)
      (hw : w ∈ Set.uIcc u v) : a ≤ .number w := by
    rcases Set.mem_uIcc.mp hw with ⟨h, -⟩ | ⟨h, -⟩
    exacts [Scalar.le_trans hu (Exact.number_le_number.mpr h),
      Scalar.le_trans hv (Exact.number_le_number.mpr h)]
  have hbelow {a : Exact K} {u v w : K} (hu : .number u ≤ a) (hv : .number v ≤ a)
      (hw : w ∈ Set.uIcc u v) : .number w ≤ a := by
    rcases Set.mem_uIcc.mp hw with ⟨-, h⟩ | ⟨-, h⟩
    exacts [Scalar.le_trans (Exact.number_le_number.mpr h) hv,
      Scalar.le_trans (Exact.number_le_number.mpr h) hu]
  exact ⟨habove h₁.xMin h₂.xMin hx, hbelow h₁.xMax h₂.xMax hx, habove h₁.yMin h₂.yMin hy,
    hbelow h₁.yMax h₂.yMax hy⟩

end Box

namespace Arc

section

variable {α : Type} [Scalar α]

/-- The points that tell how far an arc reaches: its ends, and the outermost points of its
circle that it passes. -/
def corners (a : Arc α) : List (Point α) :=
  a.pointAt a.startAngle :: a.pointAt (a.startAngle + a.sweep) :: a.axisExtremes

/-- The smallest box around the corners of an arc. -/
def frame (a : Arc α) : Box α := .ofPoints a.corners

theorem length_points (a : Arc α) : a.points.length = a.chords + 1 := by
  rw [points, List.length_map, List.length_range]

theorem exists_points_eq (a : Arc α) : ∃ p q rest, a.points = p :: q :: rest := by
  have hlength := a.length_points
  have hchords := a.chords_pos
  rcases hpoints : a.points with _ | ⟨p, _ | ⟨q, rest⟩⟩
  · simp [hpoints] at hlength
  · simp [hpoints] at hlength
    omega
  · exact ⟨p, q, rest, rfl⟩

/-- An arc has points. -/
theorem points_ne_nil (a : Arc α) : a.points ≠ [] := by
  obtain ⟨p, q, rest, hpoints⟩ := a.exists_points_eq
  simp [hpoints]

end

variable {K : Type} [Field K] [LinearOrder K] [IsStrictOrderedRing K] [FloorRing K] [Analytic K]
  {x y radius start sweep : K}

omit [IsStrictOrderedRing K] in
theorem numeric_corner {a : Arc (Exact K)} (ha : a.Finite) {p : Point (Exact K)}
    (hp : p ∈ a.corners) : (Box.ofPoint p).Numeric := by
  obtain ⟨x, y, radius, start, sweep, rfl⟩ := ha.exists_exact
  have hnumber (angle : K) :
      (Box.ofPoint ((exact x y radius start sweep).pointAt (.number angle))).Numeric :=
    Box.numeric_ofPoint (Exact.isNaN_eq_false_iff.mpr nofun) (Exact.isNaN_eq_false_iff.mpr nofun)
  rcases List.mem_cons.mp hp with rfl | hp
  · exact hnumber start
  rcases List.mem_cons.mp hp with rfl | hp
  · exact hnumber (start + sweep)
  obtain ⟨angle, hangle, rfl⟩ := List.mem_map.mp hp
  obtain ⟨k, rfl⟩ := mem_axisAngles_exact_iff.mp (List.mem_filter.mp hangle).1
  exact hnumber _

omit [IsStrictOrderedRing K] in
/-- Full turns lead back to the same point. -/
theorem pointAt_add_turns (h : Analytic.Quartered K) (angle : K) (n : ℤ) :
    (exact x y radius start sweep).pointAt (.number (angle + n * (2 * Analytic.pi))) =
      (exact x y radius start sweep).pointAt (.number angle) := by
  rw [pointAt_exact, pointAt_exact, h.cos.apply_add_turns, h.sin.apply_add_turns]

/-- The points of an arc at its ends and at the quarter turns between them are its corners. -/
theorem pointAt_mem_corners (h : Analytic.Quartered K) {t : K}
    (ht : IsKnot Analytic.pi start (start + sweep) t) :
    (exact x y radius start sweep).pointAt (.number t) ∈
      (exact x y radius start sweep).corners := by
  cases ht with
  | start => exact List.mem_cons_self
  | finish => exact List.mem_cons_of_mem _ List.mem_cons_self
  | axis n hn =>
      obtain ⟨k, m, hk⟩ := exists_quarter_add_turns (Analytic.pi : K) n
      rw [← hk] at hn ⊢
      rw [pointAt_add_turns h]
      exact List.mem_cons_of_mem _ (List.mem_cons_of_mem _ (mem_axisExtremes_exact h.pi_pos hn))

/-- Points of an arc within a quarter turn lie between each other as their angles do. -/
theorem holds_pointAt (h : Analytic.Quartered K) {b : Box (Exact K)} {n : ℤ} {l r t : K}
    (hl : l ∈ quarter (Analytic.pi / 2) n) (hr : r ∈ quarter (Analytic.pi / 2) n)
    (ht : t ∈ Set.Icc l r)
    (hleft : b.Holds ((exact x y radius start sweep).pointAt (.number l)))
    (hright : b.Holds ((exact x y radius start sweep).pointAt (.number r))) :
    b.Holds ((exact x y radius start sweep).pointAt (.number t)) := by
  have hstretch {c u v w : K} (hw : w ∈ Set.uIcc u v) :
      c + radius * w ∈ Set.uIcc (c + radius * u) (c + radius * v) := by
    rw [← Set.image_const_add_uIcc, ← Set.image_const_mul_uIcc]
    exact Set.mem_image_of_mem _ (Set.mem_image_of_mem _ hw)
  exact hleft.between hright (hstretch (h.cos.mem_uIcc hl hr ht))
    (hstretch (h.sin.mem_uIcc hl hr ht))

/-- The smallest box around the ends of an arc and the outermost points of its circle that it
passes holds all of the arc, the ends of its chords among it. -/
theorem frame_holds (h : Analytic.Quartered K) {a : Arc (Exact K)} (ha : a.Finite) :
    (∀ angle, a.Spans angle → a.frame.Holds (a.pointAt angle)) ∧
    (∀ p ∈ a.points, ∃ angle, a.Spans angle ∧ p = a.pointAt angle) ∧
    (∀ p ∈ a.corners, a.frame.Holds p) ∧
    ∀ b : Box (Exact K), (∀ p ∈ a.corners, b.Holds p) → b.Contains a.frame := by
  have hcorners (p) (hp : p ∈ a.corners) : a.frame.Holds p :=
    Box.holds_ofPoints hp (numeric_corner ha hp)
  refine ⟨fun angle hangle => ?_, fun p hp => ?_, hcorners, fun b hb => Box.contains_ofPoints hb⟩
  · obtain ⟨x, y, radius, start, sweep, rfl⟩ := ha.exists_exact
    obtain ⟨t, ht, rfl⟩ := spans_exact_iff.mp hangle
    obtain ⟨n, l, r, hl, hr, hln, hrn, hlr⟩ := exists_knots h.pi_pos ht
    exact holds_pointAt h hln hrn hlr (hcorners _ (pointAt_mem_corners h hl))
      (hcorners _ (pointAt_mem_corners h hr))
  · obtain ⟨x, y, radius, start, sweep, rfl⟩ := ha.exists_exact
    obtain ⟨t, ht, rfl⟩ := exists_angle_of_mem_points_exact hp
    exact ⟨.number t, spans_exact_iff.mpr ⟨t, ht, rfl⟩, rfl⟩

end Arc

/-! ## Sine and cosine -/

section Left

theorem isQuartered_cos : IsQuartered Real.pi Real.cos where
  periodic := Real.cos_periodic
  monotone n := by
    -- The quarter lies in a half turn that begins with a whole number of them.
    have hsub : ∀ x ∈ quarter (Real.pi / 2) n, x - (n / 2 : ℤ) * Real.pi ∈ Set.Icc 0 Real.pi := by
      rintro x ⟨hbelow, habove⟩
      have hlower : (2 * (n / 2 : ℤ) : ℝ) ≤ n := by exact_mod_cast Int.mul_ediv_self_le two_ne_zero
      have hupper : (n + 1 : ℝ) ≤ 2 * (n / 2 : ℤ) + 2 := by
        exact_mod_cast (by omega : n + 1 ≤ 2 * (n / 2) + 2)
      constructor <;> nlinarith [Real.pi_pos]
    have hfalls {x y : ℝ} (hx : x ∈ quarter (Real.pi / 2) n) (hy : y ∈ quarter (Real.pi / 2) n)
        (hxy : x ≤ y) : Real.cos (y - (n / 2 : ℤ) * Real.pi) ≤
          Real.cos (x - (n / 2 : ℤ) * Real.pi) :=
      Real.antitoneOn_cos (hsub x hx) (hsub y hy) (sub_le_sub_right hxy _)
    simp only [Real.cos_sub_int_mul_pi] at hfalls
    rcases Int.even_or_odd (n / 2) with heven | hodd
    · simp only [heven.neg_one_zpow, one_mul] at hfalls
      exact .inr fun x hx y hy hxy => hfalls hx hy hxy
    · simp only [hodd.neg_one_zpow, neg_mul, one_mul, neg_le_neg_iff] at hfalls
      exact .inl fun x hx y hy hxy => hfalls hx hy hxy

theorem isQuartered_sin : IsQuartered Real.pi Real.sin where
  periodic := Real.sin_periodic
  monotone n := by
    have hshift : ∀ x ∈ quarter (Real.pi / 2) n,
        x - Real.pi / 2 ∈ quarter (Real.pi / 2) (n - 1) := by
      rintro x ⟨hbelow, habove⟩
      constructor <;> push_cast <;> linarith
    rcases isQuartered_cos.monotone (n - 1) with hrise | hfall
    · refine .inl fun x hx y hy hxy => ?_
      have := hrise (hshift x hx) (hshift y hy) (sub_le_sub_right hxy _)
      rwa [Real.cos_sub_pi_div_two, Real.cos_sub_pi_div_two] at this
    · refine .inr fun x hx y hy hxy => ?_
      have := hfall (hshift x hx) (hshift y hy) (sub_le_sub_right hxy _)
      rwa [Real.cos_sub_pi_div_two, Real.cos_sub_pi_div_two] at this

attribute [local instance] Gerber.Document.reals

theorem quartered_reals : Analytic.Quartered ℝ where
  pi_pos := Real.pi_pos
  sin := isQuartered_sin
  cos := isQuartered_cos

/-- The quarter of the unit circle around its leftmost point. -/
noncomputable def leftQuarter : Arc (Exact ℝ) :=
  .exact 0 0 1 (0.75 * Real.pi) (0.5 * Real.pi)

theorem finite_leftQuarter : leftQuarter.Finite := ⟨⟨rfl, rfl⟩, rfl, rfl, rfl⟩

theorem spans_leftQuarter : leftQuarter.Spans (.number Real.pi) := by
  refine Arc.spans_exact_iff.mpr ⟨Real.pi, ?_, rfl⟩
  rw [Set.uIcc_of_le (by linarith [Real.pi_pos])]
  constructor <;> linarith [Real.pi_pos]

theorem pointAt_leftQuarter :
    leftQuarter.pointAt (.number Real.pi) = ⟨.number (-1), .number 0⟩ := by
  change Arc.pointAt (.exact _ _ _ _ _) _ = _
  rw [Arc.pointAt_exact]
  change (⟨.number (0 + 1 * Real.cos _), .number (0 + 1 * Real.sin _)⟩ : Point (Exact ℝ)) = _
  rw [Real.cos_pi, Real.sin_pi]
  norm_num

/-- The box holds the leftmost point of the circle, and every end of a chord. -/
theorem frame_holds_left :
    Analytic.Quartered ℝ ∧ leftQuarter.Finite ∧ leftQuarter.Spans (.number Real.pi) ∧
      leftQuarter.frame.Holds ⟨.number (-1), .number 0⟩ ∧
      leftQuarter.points ≠ [] ∧ ∀ p ∈ leftQuarter.points, leftQuarter.frame.Holds p := by
  obtain ⟨hspans, hpoints, -⟩ := Arc.frame_holds quartered_reals finite_leftQuarter
  refine ⟨quartered_reals, finite_leftQuarter, spans_leftQuarter,
    pointAt_leftQuarter ▸ hspans _ spans_leftQuarter, leftQuarter.points_ne_nil, fun p hp => ?_⟩
  obtain ⟨angle, hangle, rfl⟩ := hpoints p hp
  exact hspans angle hangle

end Left

end BoardMill
