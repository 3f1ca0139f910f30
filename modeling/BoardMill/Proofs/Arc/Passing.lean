import BoardMill.Arc
import BoardMill.Proofs.Scalar.Angle

/-! # The angles of an arc

In exact arithmetic the points of an arc lie at angles between its start and its end, and the
arc passes at least the directions of these angles, whichever way it turns and however often
its angles have gone around.
-/

namespace BoardMill

namespace Exact

variable {K : Type} [Field K] [LinearOrder K] [FloorRing K] [Analytic K]

theorem turn_eq [IsStrictOrderedRing K] :
    (Scalar.turn : Exact K) = .number (2 * Analytic.pi) := by
  rw [Scalar.turn, two_eq]
  rfl

end Exact

namespace Arc

/-- An angle lies between the start and the end of an arc. -/
def Spans {α : Type} [Scalar α] (a : Arc α) (angle : α) : Prop :=
  (a.startAngle ≤ angle ∧ angle ≤ a.startAngle + a.sweep) ∨
    (a.startAngle + a.sweep ≤ angle ∧ angle ≤ a.startAngle)

/-- An arc of numbers. -/
structure Finite {α : Type} [Scalar α] (a : Arc α) : Prop where
  center : a.center.Finite
  radius : Scalar.isFinite a.radius = true
  startAngle : Scalar.isFinite a.startAngle = true
  sweep : Scalar.isFinite a.sweep = true

theorem chords_pos {α : Type} [Scalar α] (a : Arc α) : 0 < a.chords :=
  Nat.two_pos.trans_le (Nat.le_max_right _ 2)

/-- The arc around a point from an angle through a sweep. -/
def exact {K : Type} (x y radius start sweep : K) : Arc (Exact K) :=
  ⟨⟨.number x, .number y⟩, .number radius, .number start, .number sweep⟩

variable {K : Type} [Field K] [LinearOrder K] [FloorRing K] [Analytic K]

theorem Finite.exists_exact {a : Arc (Exact K)} (h : a.Finite) :
    ∃ x y radius start sweep, a = exact x y radius start sweep := by
  obtain ⟨⟨x, y⟩, radius, start, sweep⟩ := a
  obtain ⟨x, rfl⟩ := Exact.exists_number h.center.x
  obtain ⟨y, rfl⟩ := Exact.exists_number h.center.y
  obtain ⟨radius, rfl⟩ := Exact.exists_number h.radius
  obtain ⟨start, rfl⟩ := Exact.exists_number h.startAngle
  obtain ⟨sweep, rfl⟩ := Exact.exists_number h.sweep
  exact ⟨x, y, radius, start, sweep, rfl⟩

variable {x y radius start sweep : K}

theorem pointAt_exact (angle : K) :
    (exact x y radius start sweep).pointAt (.number angle) =
      ⟨.number (x + radius * Analytic.cos angle), .number (y + radius * Analytic.sin angle)⟩ :=
  rfl

theorem spans_exact_iff {angle : Exact K} :
    (exact x y radius start sweep).Spans angle ↔
      ∃ t ∈ Set.uIcc start (start + sweep), angle = .number t := by
  have hend : (exact x y radius start sweep).startAngle + (exact x y radius start sweep).sweep =
      .number (start + sweep) := Exact.number_add _ _
  unfold Spans
  rw [hend]
  cases angle with
  | number t =>
      change (Exact.number start ≤ .number t ∧ _) ∨ (_ ∧ Exact.number t ≤ .number start) ↔ _
      simp only [Exact.number_le_number, Exact.number.injEq, exists_eq_right', Set.mem_uIcc]
  | above | below | undefined => simp [Exact.le_iff, Exact.ble, exact]

variable [IsStrictOrderedRing K]

/-- The points of an arc lie at angles between its start and its end. -/
theorem exists_angle_of_mem_points_exact {p : Point (Exact K)}
    (hp : p ∈ (exact x y radius start sweep).points) :
    ∃ t ∈ Set.uIcc start (start + sweep),
      p = (exact x y radius start sweep).pointAt (.number t) := by
  obtain ⟨k, hk, rfl⟩ := List.mem_map.mp hp
  let count : ℕ := (exact x y radius start sweep).chords
  have hcount : (0 : K) < count := by exact_mod_cast chords_pos (exact x y radius start sweep)
  have hpart : (k : K) / count ≤ 1 := by
    rw [div_le_one hcount]
    exact_mod_cast Nat.le_of_lt_succ (List.mem_range.mp hk)
  have hnonneg : 0 ≤ (k : K) / count := by positivity
  refine ⟨start + k / count * sweep, ?_, ?_⟩
  · rw [Set.mem_uIcc]
    rcases le_total 0 sweep with hsweep | hsweep
    · have hbelow := mul_le_of_le_one_left hsweep hpart
      have habove := mul_nonneg hnonneg hsweep
      exact .inl ⟨by linarith, by linarith⟩
    · have hbelow := mul_nonpos_of_nonneg_of_nonpos hnonneg hsweep
      have habove := mul_le_mul_of_nonpos_right hpart hsweep
      exact .inr ⟨by linarith, by linarith⟩
  · dsimp only
    rw [Exact.ofNat_eq, Exact.ofNat_eq, Exact.number_div hcount.ne']
    rfl

theorem passes_exact_iff (hpi : 0 < (Analytic.pi : K)) {angle : K} :
    (exact x y radius start sweep).passes (.number angle) = true ↔
      let turned := if 0 ≤ sweep then angle - start else start - angle
      turned - 2 * Analytic.pi * ⌊turned / (2 * Analytic.pi)⌋ ≤ |sweep| + 1e-12 := by
  have hturn : 0 < 2 * (Analytic.pi : K) := mul_pos two_pos hpi
  have hbound : (Scalar.abs (.number sweep) + 1e-12 : Exact K) = .number (|sweep| + 1e-12) := rfl
  unfold passes exact
  dsimp only
  rw [decide_eq_true_iff, Exact.zero_eq, hbound]
  simp only [Exact.number_le_number, Exact.number_sub]
  split <;> rw [Exact.turn_eq, Exact.wrap_number hturn, Exact.number_le_number]

/-- An arc passes the directions that lie between its start and its end. -/
theorem passes_exact_of_mem (hpi : 0 < (Analytic.pi : K)) {angle : K} {n : ℤ}
    (h : angle + n * (2 * Analytic.pi) ∈ Set.uIcc start (start + sweep)) :
    (exact x y radius start sweep).passes (.number angle) = true := by
  have hturn : 0 < 2 * (Analytic.pi : K) := mul_pos two_pos hpi
  rw [passes_exact_iff hpi]
  dsimp only
  have hpositive : (0 : K) < 1e-12 := by norm_num
  split
  next hsweep =>
    rw [Set.uIcc_of_le (by linarith)] at h
    have hleast := Exact.sub_mul_floor_le hturn (x := angle - start) (n := n)
      (by linarith [h.1])
    linarith [h.2, le_abs_self sweep]
  next hsweep =>
    rw [Set.uIcc_of_ge (by linarith)] at h
    have hleast := Exact.sub_mul_floor_le hturn (x := start - angle) (n := -n)
      (by push_cast; linarith [h.2])
    push_cast at hleast
    linarith [h.1, neg_le_abs sweep]

omit [IsStrictOrderedRing K] in
theorem mem_axisAngles_exact_iff {angle : Exact K} :
    angle ∈ axisAngles ↔ ∃ k : Fin 4, angle = .number (k * Analytic.pi / 2) := by
  have hangle (k : ℕ) :
      (Scalar.ofNat k * Scalar.pi / 2.0 : Exact K) = .number (k * Analytic.pi / 2) := by
    rw [Exact.ofNat_eq, Exact.two_eq]
    exact Exact.number_div two_ne_zero
  simp only [axisAngles, List.mem_map, List.mem_range, hangle]
  constructor
  · rintro ⟨k, hk, rfl⟩
    exact ⟨⟨k, hk⟩, rfl⟩
  · rintro ⟨k, rfl⟩
    exact ⟨k, k.isLt, rfl⟩

/-- An arc that passes a half axis has the outermost point of its circle there. -/
theorem mem_axisExtremes_exact (hpi : 0 < (Analytic.pi : K)) {k : Fin 4} {n : ℤ}
    (h : (k * Analytic.pi / 2 : K) + n * (2 * Analytic.pi) ∈ Set.uIcc start (start + sweep)) :
    (exact x y radius start sweep).pointAt (.number (k * Analytic.pi / 2)) ∈
      (exact x y radius start sweep).axisExtremes :=
  List.mem_map_of_mem (List.mem_filter.mpr
    ⟨mem_axisAngles_exact_iff.mpr ⟨k, rfl⟩, passes_exact_of_mem hpi h⟩)

end Arc

end BoardMill
