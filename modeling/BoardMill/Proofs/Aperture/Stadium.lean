import BoardMill.Aperture.Outline
import BoardMill.Coordinate
import BoardMill.Proofs.Gerber.Paths
import BoardMill.Proofs.Scalar.Circle

/-! # Stadiums

The outline of an obround is a stadium: two half circles whose centers stand opposite each other
on the longer axis, and two straight edges along this axis that lead from the end of each half
circle to the start of the other one.
-/

namespace BoardMill

/-- The other one of the two axes. -/
def Axis.other : Axis → Axis
  | .x => .y
  | .y => .x

section

variable {α : Type}

/-- How far a point is along an axis. -/
def Point.along (p : Point α) : Axis → α
  | .x => p.x
  | .y => p.y

variable [Scalar α]

/-- Two points are the ends of an edge along an axis. -/
structure IsEdge (axis : Axis) (length : α) (p q : Point α) : Prop where
  parallel : p.along axis.other = q.along axis.other
  length_eq : Scalar.abs (p.along axis - q.along axis) = length

/-- Two caps of a radius, around centers that stand opposite each other on an axis, are joined by
edges along the axis which are as long as the centers are apart. -/
structure IsStadium (axis : Axis) (radius edge : α) (center opposite : Point α)
    (first second : List (Point α)) : Prop where
  onAxis : center.along axis.other = 0.0
  symmetric : opposite = ⟨-center.x, -center.y⟩
  apart : IsEdge axis edge center opposite
  firstCap : ∀ p ∈ first, p.IsAway radius center
  secondCap : ∀ p ∈ second, p.IsAway radius opposite
  firstEdge : ∃ p q, first.getLast? = some p ∧ second.head? = some q ∧ IsEdge axis edge p q
  secondEdge : ∃ p q, second.getLast? = some p ∧ first.head? = some q ∧ IsEdge axis edge p q

end

/-! ## Caps -/

section Caps

variable {K : Type} [Field K] [Analytic K]

/-- Points of half a circle around a center, from an angle on. -/
def cap (x y radius first : K) (segments : ℕ) : List (Point (Exact K)) :=
  (List.range (segments + 1)).map fun k : ℕ =>
    onCircle x y radius (first + Analytic.pi * k / segments)

variable (x y radius first : K) {segments : ℕ}

theorem length_cap : (cap x y radius first segments).length = segments + 1 := by
  rw [cap, List.length_map, List.length_range]

theorem head?_cap : (cap x y radius first segments).head? = some (onCircle x y radius first) := by
  simp [cap, List.range_succ_eq_map]

theorem getLast?_cap [CharZero K] (hsegments : 0 < segments) :
    (cap x y radius first segments).getLast? =
      some (onCircle x y radius (first + Analytic.pi)) := by
  have hne : (segments : K) ≠ 0 := Nat.cast_ne_zero.mpr hsegments.ne'
  simp [cap, List.range_succ, hne]

theorem exists_angle_of_mem_cap {p : Point (Exact K)} (hp : p ∈ cap x y radius first segments) :
    ∃ angle, p = onCircle x y radius angle := by
  obtain ⟨k, -, rfl⟩ := List.mem_map.mp hp
  exact ⟨_, rfl⟩

end Caps

namespace Obround

variable {K : Type} [Field K] [LinearOrder K] [FloorRing K] [Analytic K]

theorem map_capAngles (x y radius first : K) {segments : ℕ} (hsegments : 0 < segments)
    {f : Exact K → Point (Exact K)} (hf : ∀ angle, f (.number angle) = onCircle x y radius angle) :
    (capAngles (.number first) segments).map f = cap x y radius first segments := by
  have hne : (segments : K) ≠ 0 := Nat.cast_ne_zero.mpr hsegments.ne'
  rw [capAngles, List.map_map]
  refine List.map_congr_left fun k _ => ?_
  rw [Function.comp_apply, Exact.ofNat_eq, Exact.ofNat_eq, ← hf]
  change f (.number first + .number (Analytic.pi * (k : K)) / .number (segments : K)) = _
  rw [Exact.number_div hne, Exact.number_add]

/-- The outline of an obround is made of two caps. -/
theorem outline_number (radius edge : K) (horizontal : Bool) {segments : ℕ}
    (hsegments : 0 < segments) :
    (⟨.number radius, .number edge, horizontal⟩ : Obround (Exact K)).outline segments =
      if horizontal then
        cap (edge / 2) 0 radius (-Analytic.pi / 2) segments ++
          cap (-(edge / 2)) 0 radius (Analytic.pi / 2) segments
      else
        cap 0 (edge / 2) radius 0 segments ++
          cap 0 (-(edge / 2)) radius Analytic.pi segments := by
  have hpi : (Scalar.pi : Exact K) = .number Analytic.pi := rfl
  have hx (u : K) : (Exact.number u : Exact K) = .number (0 + u) := by rw [zero_add]
  unfold outline
  simp only [hpi, Exact.zero_eq, Exact.neg_number, Exact.half_number]
  split
  · congr 1 <;>
      exact map_capAngles _ _ _ _ hsegments fun angle => congrArg (Point.mk _) (hx _)
  · congr 1 <;>
      exact map_capAngles _ _ _ _ hsegments fun angle => congrArg (Point.mk · _) (hx _)

/-- The obround of a width and a height. -/
theorem ofSize_number (x y : K) :
    ofSize (.number x) (.number y) =
      (⟨.number (min x y / 2), .number |x - y|, decide (y ≤ x)⟩ : Obround (Exact K)) := by
  simp only [ofSize, Exact.min_number, Exact.half_number, Exact.number_sub,
    Exact.number_le_number]
  rfl

end Obround

/-! ## Edges -/

/-- The point that is so far along an axis and so far across it. -/
def Axis.point {α : Type} (along across : α) : Axis → Point α
  | .x => ⟨along, across⟩
  | .y => ⟨across, along⟩

section Edges

variable {K : Type} [Field K] [LinearOrder K] [FloorRing K] [Analytic K]

theorem isEdge_point {u v edge : K} (axis : Axis) (h : |u - v| = edge) (across : K) :
    IsEdge axis (.number edge) (axis.point (.number u) (.number across) : Point (Exact K))
      (axis.point (.number v) (.number across)) := by
  have hlength : Scalar.abs (.number u - .number v : Exact K) = .number edge := by
    rw [Exact.number_sub]
    exact congrArg Exact.number h
  cases axis
  · exact ⟨rfl, hlength⟩
  · exact ⟨rfl, hlength⟩

variable {radius edge : K} {segments : ℕ}

/-- Two caps are a stadium if the second one begins straight opposite the end of the first one, and
ends straight opposite its start. -/
theorem isStadium_of_ends [IsStrictOrderedRing K] (axis : Axis) (hedge : 0 ≤ edge)
    (start finish : K) {first second : List (Point (Exact K))}
    (hfirst : ∀ p ∈ first, p.IsAway (.number radius) (axis.point (.number (edge / 2)) (.number 0)))
    (hsecond : ∀ p ∈ second,
      p.IsAway (.number radius) (axis.point (.number (-(edge / 2))) (.number 0)))
    (hfirstHead : first.head? = some (axis.point (.number (edge / 2)) (.number start)))
    (hfirstLast : first.getLast? = some (axis.point (.number (edge / 2)) (.number finish)))
    (hsecondHead : second.head? = some (axis.point (.number (-(edge / 2))) (.number finish)))
    (hsecondLast : second.getLast? = some (axis.point (.number (-(edge / 2))) (.number start))) :
    IsStadium axis (.number radius) (.number edge) (axis.point (.number (edge / 2)) (.number 0))
      (axis.point (.number (-(edge / 2))) (.number 0)) first second := by
  have hover : |edge / 2 - -(edge / 2)| = edge := by
    rw [sub_neg_eq_add, add_halves, abs_of_nonneg hedge]
  have hback : |-(edge / 2) - edge / 2| = edge := by rw [abs_sub_comm, hover]
  exact
    { onAxis := by cases axis <;> exact Exact.zero_eq.symm
      symmetric := by cases axis <;> simp [Axis.point]
      apart := isEdge_point axis hover 0
      firstCap := hfirst
      secondCap := hsecond
      firstEdge := ⟨_, _, hfirstLast, hsecondHead, isEdge_point axis hover finish⟩
      secondEdge := ⟨_, _, hsecondLast, hfirstHead, isEdge_point axis hback start⟩ }

variable (h : Analytic.Circular K)

include h

theorem isAway_of_mem_cap (hradius : 0 ≤ radius) {x y first : K} :
    ∀ p ∈ cap x y radius first segments, p.IsAway (.number radius) ⟨.number x, .number y⟩ := by
  intro p hp
  obtain ⟨angle, rfl⟩ := exists_angle_of_mem_cap _ _ _ _ hp
  exact h.isAway_onCircle x y hradius angle

variable [IsStrictOrderedRing K]

/-- With caps at the right and at the left, the edges lead along the first axis. -/
theorem isStadium_horizontal (hradius : 0 ≤ radius) (hedge : 0 ≤ edge) (hsegments : 0 < segments) :
    IsStadium .x (.number radius) (.number edge) ⟨.number (edge / 2), .number 0⟩
      ⟨.number (-(edge / 2)), .number 0⟩
      (cap (edge / 2) 0 radius (-Analytic.pi / 2) segments)
      (cap (-(edge / 2)) 0 radius (Analytic.pi / 2) segments) := by
  -- The caps begin and end straight below and straight above their centers.
  have hbottom (x : K) :
      onCircle x 0 radius (-Analytic.pi / 2) = ⟨.number x, .number (-radius)⟩ := by
    have hpoint := h.onCircle_mul_pi_add_right x 0 radius (-1)
    norm_num at hpoint
    rw [← hpoint]
    congr 1
    ring
  have htop (x : K) : onCircle x 0 radius (Analytic.pi / 2) = ⟨.number x, .number radius⟩ := by
    simpa using h.onCircle_mul_pi_add_right x 0 radius 0
  have hunder (x : K) :
      onCircle x 0 radius (Analytic.pi / 2 + Analytic.pi) = ⟨.number x, .number (-radius)⟩ := by
    have hpoint := h.onCircle_mul_pi_add_right x 0 radius 1
    simpa [add_comm] using hpoint
  have hturned : -(Analytic.pi : K) / 2 + Analytic.pi = Analytic.pi / 2 := by
    rw [neg_div, neg_add_eq_sub, sub_half]
  refine isStadium_of_ends .x hedge (-radius) radius (isAway_of_mem_cap h hradius)
    (isAway_of_mem_cap h hradius) ?_ ?_ ?_ ?_
  · rw [head?_cap, hbottom]
    rfl
  · rw [getLast?_cap _ _ _ _ hsegments, hturned, htop]
    rfl
  · rw [head?_cap, htop]
    rfl
  · rw [getLast?_cap _ _ _ _ hsegments, hunder]
    rfl

/-- With caps at the top and at the bottom, the edges lead along the second axis. -/
theorem isStadium_vertical (hradius : 0 ≤ radius) (hedge : 0 ≤ edge) (hsegments : 0 < segments) :
    IsStadium .y (.number radius) (.number edge) ⟨.number 0, .number (edge / 2)⟩
      ⟨.number 0, .number (-(edge / 2))⟩
      (cap 0 (edge / 2) radius 0 segments)
      (cap 0 (-(edge / 2)) radius Analytic.pi segments) := by
  -- The caps begin and end straight to the right and straight to the left of their centers.
  have hright (y : K) : onCircle 0 y radius 0 = ⟨.number radius, .number y⟩ := by
    simpa using h.onCircle_mul_pi 0 y radius 0
  have hleft (y : K) : onCircle 0 y radius Analytic.pi = ⟨.number (-radius), .number y⟩ := by
    simpa using h.onCircle_mul_pi 0 y radius 1
  have haround (y : K) :
      onCircle 0 y radius (Analytic.pi + Analytic.pi) = ⟨.number radius, .number y⟩ := by
    have hpoint := h.onCircle_mul_pi 0 y radius 2
    norm_num at hpoint
    rwa [two_mul] at hpoint
  refine isStadium_of_ends .y hedge radius (-radius) (isAway_of_mem_cap h hradius)
    (isAway_of_mem_cap h hradius) ?_ ?_ ?_ ?_
  · rw [head?_cap, hright]
    rfl
  · rw [getLast?_cap _ _ _ _ hsegments, zero_add, hleft]
    rfl
  · rw [head?_cap, hleft]
    rfl
  · rw [getLast?_cap _ _ _ _ hsegments, haround]
    rfl

end Edges

/-- The outline of an obround is a stadium on its longer axis. The caps have as many segments each as
they are asked for, and the lesser side for a diameter; the edges are as long as one side is longer
than the other. -/
theorem Obround.outline_is_stadium {K : Type} [Field K] [LinearOrder K] [IsStrictOrderedRing K]
    [FloorRing K] [Analytic K] (h : Analytic.Circular K) {xSize ySize : Exact K}
    (hx : xSize.Nonneg) (hy : ySize.Nonneg) {segments : ℕ} (hsegments : 0 < segments) :
    let o := Obround.ofSize xSize ySize
    o.capRadius = Scalar.min xSize ySize / 2.0 ∧ o.edgeLength = Scalar.abs (xSize - ySize) ∧
    ∃ (longer : Axis) (center opposite : Point (Exact K)) (first second : List (Point (Exact K))),
      (longer = .x ↔ ySize ≤ xSize) ∧
      o.outline segments = first ++ second ∧
      first.length = segments + 1 ∧ second.length = segments + 1 ∧
      IsStadium longer o.capRadius o.edgeLength center opposite first second := by
  obtain ⟨x, hx, rfl⟩ := hx
  obtain ⟨y, hy, rfl⟩ := hy
  intro o
  refine ⟨rfl, rfl, ?_⟩
  have hradius : 0 ≤ min x y / 2 := div_nonneg (le_min hx hy) zero_le_two
  have hedge : 0 ≤ |x - y| := abs_nonneg _
  dsimp only [o]
  rw [Obround.ofSize_number, Obround.outline_number _ _ _ hsegments]
  by_cases hwide : y ≤ x
  · exact ⟨.x, _, _, _, _, by simp [hwide], by simp [hwide], length_cap _ _ _ _,
      length_cap _ _ _ _, isStadium_horizontal h hradius hedge hsegments⟩
  · exact ⟨.y, _, _, _, _, by simp [hwide], by simp [hwide], length_cap _ _ _ _,
      length_cap _ _ _ _, isStadium_vertical h hradius hedge hsegments⟩

section Taller

attribute [local instance] Gerber.Document.reals

theorem circular_reals : Analytic.Circular ℝ where
  sin_sq_add_cos_sq := Real.sin_sq_add_cos_sq
  sin_mul_pi := Real.sin_int_mul_pi
  cos_mul_pi := Real.cos_int_mul_pi
  sin_mul_pi_add_right n := (Real.sin_add_pi_div_two _).trans (Real.cos_int_mul_pi n)
  cos_mul_pi_add_right n := by
    refine (Real.cos_add_pi_div_two _).trans ?_
    exact neg_eq_zero.mpr (Real.sin_int_mul_pi n)

/-- An obround that is taller than wide has its caps at the top and at the bottom. -/
theorem Obround.outline_is_stadium_taller :
    let o : Obround (Exact ℝ) := Obround.ofSize (.number 0.2) (.number 0.5)
    Analytic.Circular ℝ ∧ (Exact.number (0.2 : ℝ)).Nonneg ∧ (Exact.number (0.5 : ℝ)).Nonneg ∧
      (o.outline 16).length = 34 ∧
      ∃ center opposite first second, o.outline 16 = first ++ second ∧
        IsStadium .y (.number 0.1) (.number 0.3) center opposite first second := by
  intro o
  have hx : (Exact.number (0.2 : ℝ)).Nonneg := ⟨0.2, by norm_num, rfl⟩
  have hy : (Exact.number (0.5 : ℝ)).Nonneg := ⟨0.5, by norm_num, rfl⟩
  obtain ⟨hradius, hedge, longer, center, opposite, first, second, hlonger, houtline, hfirst,
    hsecond, hstadium⟩ := Obround.outline_is_stadium circular_reals hx hy (by decide : 0 < 16)
  have hvertical : longer = .y := by
    cases longer with
    | x =>
        have hle := hlonger.mp rfl
        rw [Exact.number_le_number] at hle
        norm_num at hle
    | y => rfl
  have hcap : o.capRadius = .number 0.1 := by
    refine hradius.trans ?_
    rw [Exact.min_number, Exact.half_number]
    norm_num
  have hlength : o.edgeLength = .number 0.3 := by
    refine hedge.trans ?_
    rw [Exact.number_sub]
    change Exact.number |(0.2 : ℝ) - 0.5| = _
    norm_num [abs_of_neg]
  refine ⟨circular_reals, hx, hy, ?_, center, opposite, first, second, houtline, ?_⟩
  · rw [houtline, List.length_append, hfirst, hsecond]
  · rw [hvertical, hcap, hlength] at hstadium
    exact hstadium

end Taller

end BoardMill
