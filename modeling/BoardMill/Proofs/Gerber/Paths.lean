import BoardMill.Proofs.Arc.Samples
import BoardMill.Proofs.GCode.Path
import BoardMill.Proofs.Gerber.Placement

/-! # Where paths are drawn

A picture draws a straight line between the current point and the target, and in place of an
arc the chords between points of its circle. Over the real numbers, with sine and cosine
within a tolerance, straight lines lie in the box of the document. The points of an arc lie
as near to it as the target lies to the circle: the box takes the target itself in, and the
picture draws the arc on to the point of the circle in the direction of the target.
-/

namespace BoardMill

variable {K : Type} [Field K] [LinearOrder K] [IsStrictOrderedRing K] [FloorRing K] [Analytic K]

theorem Aperture.strokeWidth_cases {α : Type} [Scalar α] (a : Aperture α) :
    a.strokeWidth = a.size.width ∨ a.strokeWidth = Scalar.min a.size.width a.size.height := by
  unfold strokeWidth size
  cases a.shape with
  | circle diameter => exact .inl rfl
  | rectangle xSize ySize => exact .inr rfl
  | obround xSize ySize => exact .inr rfl
  | polygon outerDiameter vertices rotation => exact .inl rfl

omit [IsStrictOrderedRing K] in
theorem Aperture.Usable.nonneg_strokeWidth {a : Aperture (Exact K)} (h : a.Usable) :
    a.strokeWidth.Nonneg := by
  have hnonneg := isNonneg_of_check h.checked
  rw [Size.isNonneg, Bool.and_eq_true, decide_eq_true_iff, decide_eq_true_iff] at hnonneg
  have hwidth := Exact.nonneg_of_le h.finite.width hnonneg.1
  have hheight := Exact.nonneg_of_le h.finite.height hnonneg.2
  rcases a.strokeWidth_cases with hstroke | hstroke
  · rw [hstroke]
    exact hwidth
  · rw [hstroke, Scalar.min]
    split_ifs
    exacts [hheight, hheight, hwidth]

namespace Gerber

theorem State.nonneg_side {s : State (Exact K)} (hs : ∀ a ∈ s.apertures.entries, a.Usable) :
    s.currentReach.side.Nonneg := by
  unfold currentReach
  split
  · exact Exact.nonneg_zero
  · split
    next a hcurrent =>
      obtain ⟨w, hw, hwidth⟩ := (hs a (mem_of_current? hcurrent)).nonneg_strokeWidth
      refine s.units.nonneg_toMm ⟨w / 2, by positivity, ?_⟩
      rw [hwidth, Exact.two_eq, Exact.number_div two_ne_zero]
    next => exact Exact.nonneg_zero

namespace Document

/-- The box of a sound document holds the outermost points of its arcs. -/
theorem Sound.holds_axisExtremes {d : Document (Exact K)} {box : Box (Exact K)} (h : d.Sound)
    (hbounds : d.bounds = .ok box) {before after : List (Located (Block (Exact K)))} {line : Nat}
    {mode : Interpolation} {target : Point (Exact K)} {center : Option (Point (Exact K))}
    (hsplit : d.blocks = before ++ ⟨line, .interpolate mode target center⟩ :: after)
    {arc : Arc (Exact K)}
    (harc : ((State.start d.apertures).afterAll before).arc? mode target center = some arc)
    {p : Point (Exact K)} (hp : p ∈ arc.axisExtremes) (hfinite : p.Finite) : box.Holds p := by
  have hside := State.nonneg_side (h.usable_afterAll before)
  have hholds := Box.holds_around hfinite hside hside
  refine ((bounds_contains hbounds hsplit).2 _ ?_ hholds.numeric).holds hholds
  rw [Block.boxes, harc]
  exact List.mem_cons_of_mem _ (List.mem_cons_of_mem _ (List.mem_map_of_mem hp))

/-- Over the real numbers, with sine and cosine within a tolerance, the path that a picture
draws for an interpolation, into the open contour or as a stroke, lies in the box of the
document if it is straight. If it is an arc it lies as near to the box as the target is to
the circle, up to the tolerance. -/
theorem paths_near_bounds [Analytic ℝ] {tolerance : ℝ}
    (haccurate : Analytic.Accurate tolerance) {text : List Char} {d : Document (Exact ℝ)}
    {box : Box (Exact ℝ)} (hread : ofText? text = .ok d) (hbounds : d.bounds = .ok box)
    {before after : List (Located (Block (Exact ℝ)))} {line : Nat} {mode : Interpolation}
    {target : Point (Exact ℝ)} {center : Option (Point (Exact ℝ))}
    (hsplit : d.blocks = before ++ ⟨line, .interpolate mode target center⟩ :: after) :
    let s := (State.start d.apertures).afterAll before
    let path := s.path mode target center
    (∃ rounded width, ∀ (options : PictureOptions (Exact ℝ)) (frame : Frame (Exact ℝ))
        (drawing : Drawing (Exact ℝ)),
      (Block.interpolate mode target center).draw options frame line s drawing =
        .ok (if s.inRegion then { drawing with contours := drawing.contours.extend path }
          else drawing.mark s.polarity (.stroke rounded width path))) ∧
    (s.arc? mode target center = none → ∀ p ∈ path, box.Holds p) ∧
    ∀ arc, s.arc? mode target center = some arc → ∀ p ∈ path,
      (box.widen (arc.slack (s.pointToMm target) (.number tolerance))).Holds p := by
  intro s path
  have hsound : d.Sound := sound_of_ofText? hread
  obtain ⟨htarget, hposition⟩ := hsound.bounds_holds hbounds hsplit
  obtain ⟨hfiniteTarget, hholdsTarget⟩ := htarget rfl target rfl
  obtain ⟨hfinitePosition, hholdsPosition⟩ := hposition rfl
  refine ⟨Block.draw_interpolate (bounds_contains hbounds hsplit).1 line, fun harc => ?_,
    fun arc harc => ?_⟩
  · have hpath : path = [s.position, s.pointToMm target] := by
      simp only [path, State.path, harc]
    rw [hpath]
    exact List.forall_mem_cons.mpr ⟨hholdsPosition, List.forall_mem_singleton.mpr hholdsTarget⟩
  · have hpath : path = arc.points := by
      simp only [path, State.path, harc]
    obtain ⟨-, c, rfl, hpoints⟩ := State.exists_center_of_arc? harc
    have hblock : (Block.interpolate mode target (some c)).Finite :=
      hsound.blocks ⟨line, _⟩ (hsplit ▸ List.mem_append_right _ List.mem_cons_self)
    obtain ⟨start, hstart⟩ := hfinitePosition.exists_ofComplex
    obtain ⟨finish, hfinish⟩ := hfiniteTarget.exists_ofComplex
    obtain ⟨middle, hmiddle⟩ :=
      (s.units.finite_pointToMm (hblock.2 c rfl)).exists_ofComplex
    change s.pointToMm c = _ at hmiddle
    rw [hstart, hfinish, hmiddle] at hpoints
    obtain ⟨m, hslack, houtdone⟩ := Arc.exists_outward_le haccurate hpoints
    rw [hpath, hfinish, hslack]
    intro p hp
    obtain ⟨z, rfl, hz⟩ := houtdone p hp
    -- The points that outdo it are in the box, each for its own reason.
    refine Box.holds_widen fun k => ?_
    obtain ⟨q, hq, hle⟩ := hz k
    refine ⟨q, ?_, hle⟩
    rcases hq with rfl | rfl | hextreme
    · rw [← hstart]
      exact hholdsPosition
    · rw [← hfinish]
      exact hholdsTarget
    · exact hsound.holds_axisExtremes hbounds hsplit harc hextreme ⟨rfl, rfl⟩

/-! ## An end off the circle -/

section Eighth

variable (K) in
def eighthStart : List (Located (Block (Exact K))) :=
  [⟨1, .format ⟨.leading, ⟨2, 4⟩, ⟨2, 4⟩⟩⟩, ⟨1, .units .millimeters⟩, ⟨1, .regionStart⟩,
    ⟨1, .move ⟨10.0, 0.0⟩⟩]

def eighthTarget : Point (Exact K) := ⟨1.0, 1.0⟩

def eighthCenter : Point (Exact K) := ⟨10.0 + -10.0, 0.0 + 0.0⟩

def eighthArc : Block (Exact K) := .interpolate .counterclockwise eighthTarget (some eighthCenter)

variable (K) in
/-- A contour that turns around the origin by an eighth, toward an end that is nearer to it. -/
def eighth : Document (Exact K) :=
  ⟨eighthStart K ++ ⟨1, eighthArc⟩ :: [⟨1, .regionEnd⟩], .empty⟩

def eighthText : List Char :=
  "%FSLAX24Y24*%%MOMM*%G36*X10.0Y0.0D02*G03X1.0Y1.0I-10.0J0.0D01*G37*M02*".toList

omit [IsStrictOrderedRing K] in
theorem ofText?_eighth : ofText? eighthText = .ok (eighth K) := by cbv

variable (K) in
def eighthState : State (Exact K) := (State.start .empty).afterAll (eighthStart K)

/-- The functions of the real numbers themselves. Numbers are not written. -/
noncomputable local instance reals : Analytic ℝ where
  sqrt := Real.sqrt
  sin := Real.sin
  cos := Real.cos
  angle y x := Complex.arg ⟨x, y⟩
  pi := Real.pi
  fixed _ _ := ""
  plain _ := ""

theorem accurate_reals : Analytic.Accurate 0 where
  sqrt _ := rfl
  angle _ _ := rfl
  pi := rfl
  sin _ := (abs_eq_zero.mpr (sub_self _)).le
  cos _ := (abs_eq_zero.mpr (sub_self _)).le

theorem bounds_eighth :
    (eighth ℝ).bounds = .ok ((eighthArc.boxes (eighthState ℝ)).foldl Box.cover .empty) := rfl

theorem pointToMm_eighth (x y : ℝ) :
    (eighthState ℝ).pointToMm ⟨.number x, .number y⟩ = .ofComplex ⟨x, y⟩ := by
  change (⟨.number x * 1.0, .number y * 1.0⟩ : Point (Exact ℝ)) = _
  rw [Exact.one_eq, Exact.number_mul, Exact.number_mul, mul_one, mul_one]
  rfl

theorem position_eighth : (eighthState ℝ).position = .ofComplex 10 := by
  change (eighthState ℝ).pointToMm ⟨10.0, 0.0⟩ = _
  rw [Exact.ten_eq, Exact.zero_eq, pointToMm_eighth]
  rfl

theorem target_eighth : (eighthState ℝ).pointToMm eighthTarget = .ofComplex (1 + Complex.I) := by
  rw [eighthTarget, Exact.one_eq, pointToMm_eighth]
  congr 1
  apply Complex.ext <;> simp

theorem center_eighth : (eighthState ℝ).pointToMm eighthCenter = .ofComplex 0 := by
  rw [eighthCenter, Exact.ten_eq, Exact.zero_eq, Exact.neg_number, Exact.number_add,
    Exact.number_add, pointToMm_eighth]
  congr 1
  apply Complex.ext <;> simp

theorem arg_one_add_I : Complex.arg (1 + Complex.I) = Real.pi / 4 := by
  have hhalf : √2 * (√2 / 2) = 1 := by
    rw [← mul_div_assoc, Real.mul_self_sqrt zero_le_two, div_self two_ne_zero]
  have hpolar : (1 + Complex.I : ℂ) = (√2 : ℝ) *
      (Complex.cos (Real.pi / 4 : ℝ) + Complex.sin (Real.pi / 4 : ℝ) * Complex.I) := by
    rw [← Complex.ofReal_cos, ← Complex.ofReal_sin, Real.cos_pi_div_four, Real.sin_pi_div_four,
      mul_add, ← mul_assoc, ← Complex.ofReal_mul, hhalf, Complex.ofReal_one, one_mul]
  rw [hpolar]
  apply Complex.arg_mul_cos_add_sin_mul_I (by positivity)
  constructor <;> linarith [Real.pi_pos]

theorem arc?_eighth :
    (eighthState ℝ).arc? .counterclockwise eighthTarget (some eighthCenter) =
      some (Arc.real 0 10 0 (Real.pi / 4)) := by
  have hnorm : ‖(10 : ℂ)‖ = 10 := by simp
  have harg : Complex.arg 10 = 0 := Complex.ofNat_arg
  have hlarge : ¬ (Exact.number 10 : Exact ℝ) < 1e-9 := by
    change ¬ (Exact.number 10 : Exact ℝ) < .number 1e-9
    rw [Exact.number_lt_number]
    norm_num
  have hahead : ¬ (Exact.number (Real.pi / 4) : Exact ℝ) ≤ 1e-12 := by
    change ¬ (Exact.number (Real.pi / 4) : Exact ℝ) ≤ .number 1e-12
    rw [Exact.number_le_number]
    linarith [Real.two_le_pi, show (1e-12 : ℝ) < 1 / 4 by norm_num]
  have hsweep : Arc.sweepBetween (.number 0) (.number (Real.pi / 4)) false =
      (.number (Real.pi / 4) : Exact ℝ) := by
    unfold Arc.sweepBetween
    dsimp only
    rw [Exact.number_sub, sub_zero, if_neg Bool.false_ne_true, if_neg hahead]
  rw [State.arc?, position_eighth, target_eighth, center_eighth,
    Arc.ofPoints?_eq accurate_reals, sub_zero, sub_zero, hnorm, harg, arg_one_add_I, hsweep,
    if_neg hlarge]
  rfl

theorem path_eighth :
    (eighthState ℝ).path .counterclockwise eighthTarget (some eighthCenter) =
      (Arc.real 0 10 0 (Real.pi / 4)).points := by
  rw [State.path, arc?_eighth]

/-- The contour lies as near to its box as its end lies to the circle. -/
theorem paths_near_bounds_eighth :
    ∃ box : Box (Exact ℝ), Analytic.Accurate 0 ∧ ofText? eighthText = .ok (eighth ℝ) ∧
      (eighth ℝ).bounds = .ok box ∧
      (eighth ℝ).blocks = eighthStart ℝ ++ ⟨1, eighthArc⟩ :: [⟨1, .regionEnd⟩] ∧
      ∀ p ∈ (Arc.real 0 10 0 (Real.pi / 4)).points,
        (box.widen (.number (10 - √2))).Holds p := by
  have hslack : (Arc.real 0 10 0 (Real.pi / 4)).slack (.ofComplex (1 + Complex.I)) (.number 0) =
      .number (10 - √2) := by
    have hnorm : ‖1 + Complex.I‖ = √2 := by
      rw [Complex.norm_eq_sqrt_sq_add_sq]
      norm_num
    have hle : √2 ≤ 10 := Real.sqrt_le_iff.mpr (by norm_num)
    rw [Arc.slack_real accurate_reals, sub_zero, hnorm, abs_of_nonpos (by linarith), mul_zero,
      add_zero, neg_sub]
  refine ⟨_, accurate_reals, ofText?_eighth, bounds_eighth, rfl, ?_⟩
  have hnear :=
    (paths_near_bounds accurate_reals ofText?_eighth bounds_eighth rfl).2.2 _ arc?_eighth
  change ∀ p ∈ (eighthState ℝ).path .counterclockwise eighthTarget (some eighthCenter),
    (Box.widen _ (Arc.slack _ ((eighthState ℝ).pointToMm eighthTarget) _)).Holds p at hnear
  rw [path_eighth, target_eighth, hslack] at hnear
  exact hnear

/-- The arc stays away from the topmost point of its circle. -/
theorem not_passes_up :
    (Arc.real 0 10 0 (Real.pi / 4)).passes (.number (Real.pi / 2)) ≠ true := by
  have hquarter : (Real.pi / 2 - 0) / (2 * Real.pi) = 1 / 4 := by
    field_simp
    norm_num
  have hfloor : ⌊(1 / 4 : ℝ)⌋ = 0 := by norm_num
  rw [Ne, Arc.passes_real_iff accurate_reals, if_pos (by positivity)]
  dsimp only
  rw [hquarter, hfloor, abs_of_pos (by positivity), not_le]
  push_cast
  linarith [Real.two_le_pi, show (1e-12 : ℝ) < 1 / 4 by norm_num]

theorem axisExtremes_eighth {p : Point (Exact ℝ)}
    (hp : p ∈ (Arc.real 0 10 0 (Real.pi / 4)).axisExtremes) : ∃ y ≤ 0, p.y = .number y := by
  obtain ⟨angle, hangle, rfl⟩ := List.mem_map.mp hp
  obtain ⟨haxis, hpasses⟩ := List.mem_filter.mp hangle
  obtain ⟨k, rfl⟩ := (Arc.mem_axisAngles_iff accurate_reals).mp haxis
  have hsin : Real.sin (k * Real.pi / 2) ≤ 0 := by
    match k with
    | 0 => simp
    | 1 => exact absurd (by simpa using hpasses) not_passes_up
    | 2 => simp
    | 3 =>
      have hthree : (3 : ℕ) * Real.pi / 2 = Real.pi / 2 + Real.pi := by
        push_cast
        ring
      change Real.sin ((3 : ℕ) * Real.pi / 2) ≤ 0
      rw [hthree, Real.sin_add_pi, Real.sin_pi_div_two]
      norm_num
  exact ⟨0 + 10 * Real.sin (k * Real.pi / 2), by linarith, rfl⟩

/-- The box of the contour reaches up to its end. -/
theorem yMax_eighth :
    ((eighthArc.boxes (eighthState ℝ)).foldl Box.cover .empty).yMax ≤ .number 1 := by
  have hboxes : eighthArc.boxes (eighthState ℝ) =
      Box.around (.ofComplex 10) 0.0 0.0 :: Box.around (.ofComplex (1 + Complex.I)) 0.0 0.0 ::
        (Arc.real 0 10 0 (Real.pi / 4)).axisExtremes.map fun p => Box.around p 0.0 0.0 := by
    rw [eighthArc, Block.boxes, arc?_eighth, position_eighth, target_eighth]
    rfl
  have hheight {y : ℝ} (hy : y ≤ 1) : (Exact.number y : Exact ℝ) + 0.0 ≤ .number 1 := by
    rw [Exact.zero_eq, Exact.number_add, Exact.number_le_number, add_zero]
    exact hy
  refine Box.yMax_foldl_cover_le rfl ?_
  rw [hboxes, List.forall_mem_cons, List.forall_mem_cons, List.forall_mem_map]
  refine ⟨hheight (by simp), hheight (by simp), fun p hp => ?_⟩
  obtain ⟨y, hy, hpy⟩ := axisExtremes_eighth hp
  change p.y + 0.0 ≤ _
  rw [hpy]
  exact hheight (hy.trans zero_le_one)

/-- The contour is drawn on to the circle, more than six millimetres above its box. -/
theorem path_leaves_bounds_eighth :
    ∃ (d : Document (Exact ℝ)) (box : Box (Exact ℝ))
      (before after : List (Located (Block (Exact ℝ)))) (line : Nat) (mode : Interpolation)
      (target : Point (Exact ℝ)) (center : Option (Point (Exact ℝ))),
      ofText? eighthText = .ok d ∧ d.bounds = .ok box ∧
      d.blocks = before ++ ⟨line, .interpolate mode target center⟩ :: after ∧
      ∃ p ∈ ((State.start d.apertures).afterAll before).path mode target center,
        ¬ (box.widen (.number 6)).Holds p := by
  refine ⟨eighth ℝ, _, eighthStart ℝ, _, 1, _, _, _, ofText?_eighth, bounds_eighth, rfl,
    (Arc.real 0 10 0 (Real.pi / 4)).pointAt (.number (0 + Real.pi / 4)), ?_, fun h => ?_⟩
  · change _ ∈ (eighthState ℝ).path _ _ _
    rw [path_eighth]
    exact Arc.pointAt_end_mem_points
  · have htop : Exact.number (0 + 10 * Real.sin (0 + Real.pi / 4)) ≤
        ((eighthArc.boxes (eighthState ℝ)).foldl Box.cover .empty).yMax + .number 6 := h.yMax
    have hsqrt : 1.4 < √2 := (Real.lt_sqrt (by norm_num)).mpr (by norm_num)
    have hle := Scalar.le_trans htop (Exact.add_le_number yMax_eighth)
    rw [Exact.number_le_number, zero_add, zero_add, Real.sin_pi_div_four] at hle
    linarith

end Eighth

end Document

end Gerber

end BoardMill
