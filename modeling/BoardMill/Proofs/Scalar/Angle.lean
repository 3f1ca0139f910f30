import BoardMill.Proofs.Scalar.Exact
import Mathlib.Analysis.SpecialFunctions.Complex.Arg

/-! # Angles

Exact arithmetic over the real numbers, where square roots, angles and half a turn are what
they are called, and sine and cosine are evaluated within a tolerance. Angles that differ by
whole turns are the same direction, and between two angles a cosine has no other peak than at
the whole turns.
-/

namespace BoardMill

/-- The functions of the real numbers, sine and cosine within a tolerance. -/
structure Analytic.Accurate [Analytic ℝ] (tolerance : ℝ) : Prop where
  sqrt : ∀ x : ℝ, Analytic.sqrt x = √x
  angle : ∀ x y : ℝ, Analytic.angle y x = Complex.arg ⟨x, y⟩
  pi : (Analytic.pi : ℝ) = Real.pi
  sin : ∀ x : ℝ, |Analytic.sin x - Real.sin x| ≤ tolerance
  cos : ∀ x : ℝ, |Analytic.cos x - Real.cos x| ≤ tolerance

theorem Analytic.Accurate.nonneg [Analytic ℝ] {tolerance : ℝ}
    (h : Analytic.Accurate tolerance) : 0 ≤ tolerance :=
  (abs_nonneg _).trans (h.sin 0)

theorem Analytic.Accurate.pi_pos [Analytic ℝ] {tolerance : ℝ}
    (h : Analytic.Accurate tolerance) : 0 < (Analytic.pi : ℝ) :=
  h.pi ▸ Real.pi_pos

/-! ## Remainders -/

namespace Exact

variable {K : Type} [Field K] [LinearOrder K] [FloorRing K] [Analytic K]

theorem number_lt_number {x y : K} : (number x : Exact K) < number y ↔ x < y := by
  rw [OrderedScalar.lt_iff, number_le_number, number_le_number, lt_iff_le_not_ge]

theorem half_number (x : K) : (number x / 2.0 : Exact K) = number (x / 2) := by
  rw [two_eq]
  exact number_div two_ne_zero

theorem isNaN_number (x : K) : Scalar.isNaN (number x : Exact K) = false :=
  isNaN_eq_false_iff.mpr nofun

theorem min_number (x y : K) :
    Scalar.min (number x : Exact K) (number y) = number (min x y) := by
  unfold Scalar.min
  rw [isNaN_number, if_neg Bool.false_ne_true]
  split
  next h => rw [min_eq_right (number_lt_number.mp h).le]
  next h => rw [min_eq_left (not_lt.mp fun hlt => h (number_lt_number.mpr hlt))]

theorem max_number (x y : K) :
    Scalar.max (number x : Exact K) (number y) = number (max x y) := by
  unfold Scalar.max
  rw [isNaN_number, if_neg Bool.false_ne_true]
  split
  next h => rw [max_eq_right (number_lt_number.mp h).le]
  next h => rw [max_eq_left (not_lt.mp fun hlt => h (number_lt_number.mpr hlt))]

theorem eq_of_beq {a b : Exact K} (h : (a == b) = true) : a = b := by
  obtain ⟨hab, hba⟩ : a.ble b = true ∧ b.ble a = true := Bool.and_eq_true_iff.mp h
  cases a <;> cases b <;> simp only [Exact.ble, decide_eq_true_iff, Bool.false_eq_true] at hab hba
  · exact congrArg number (le_antisymm hab hba)
  · rfl
  · rfl

theorem ofNat_eq (n : ℕ) : (Scalar.ofNat n : Exact K) = number (n : K) := by
  have hvalue : (OfScientific.ofScientific n false 0 : ℚ≥0) = n := by
    apply NNRat.ext
    change Rat.ofScientific n false 0 = _
    rw [Rat.ofScientific_false_def, pow_zero, mul_one]
    rfl
  change number (OfScientific.ofScientific n false 0 : K) = _
  rw [← NNRat.cast_ofScientific, hvalue, NNRat.cast_natCast]

variable [IsStrictOrderedRing K]

omit [Analytic K] in
/-- A number below its integer part is negative, and rounds down to one less. -/
theorem floor_eq (x : K) : ⌊x⌋ = if x < truncate x then truncate x - 1 else truncate x := by
  unfold truncate
  split
  · rw [if_neg (Int.floor_le x).not_gt]
  · split
    next hbelow =>
      rw [Int.floor_eq_iff]
      push_cast
      exact ⟨by linarith [Int.ceil_lt_add_one x], by linarith⟩
    next hbelow =>
      rw [Int.floor_eq_iff]
      exact ⟨not_lt.mp hbelow, by linarith [Int.le_ceil x]⟩

/-- Wrapping takes as many whole moduli away as there are. -/
theorem wrap_number {x y : K} (hy : 0 < y) :
    Scalar.wrap (number x) (number y) = number (x - y * ⌊x / y⌋) := by
  have hremainder : Scalar.remainder (number x) (number y) =
      number (x - y * truncate (x / y)) := if_neg hy.ne'
  have hnegative : x - y * truncate (x / y) < 0 ↔ x / y < truncate (x / y) := by
    rw [sub_neg, div_lt_iff₀' hy]
  unfold Scalar.wrap
  dsimp only
  rw [hremainder, zero_eq, floor_eq]
  simp only [number_lt_number, hnegative]
  split
  · change number (x - y * truncate (x / y) + |y|) = _
    rw [abs_of_pos hy]
    push_cast
    ring_nf
  · rfl

omit [Analytic K] in
/-- What wrapping leaves is the least of the numbers that differ by whole moduli and are not
negative. -/
theorem sub_mul_floor_le {x y : K} (hy : 0 < y) {n : ℤ} (h : 0 ≤ x + n * y) :
    x - y * ⌊x / y⌋ ≤ x + n * y := by
  have hfloor : -n ≤ ⌊x / y⌋ := by
    rw [Int.le_floor, le_div_iff₀ hy]
    push_cast
    linarith
  have hcast : (-n : K) ≤ ⌊x / y⌋ := by exact_mod_cast hfloor
  linarith [mul_le_mul_of_nonneg_left hcast hy.le]

end Exact

/-! ## Peaks -/

/-- Between two angles the cosine of a difference is at most that at one of them, unless it
has a peak between them. -/
theorem cos_le_or_peak (φ : ℝ) {a b t : ℝ} (ht : t ∈ Set.uIcc a b) :
    Real.cos (t - φ) ≤ Real.cos (a - φ) ∨ Real.cos (t - φ) ≤ Real.cos (b - φ) ∨
      ∃ n : ℤ, φ + n * (2 * Real.pi) ∈ Set.uIcc a b := by
  wlog hab : a ≤ b generalizing a b
  · rw [Set.uIcc_comm] at ht ⊢
    rcases this ht (le_of_not_ge hab) with hend | hstart | hpeak
    exacts [.inr (.inl hend), .inl hstart, .inr (.inr hpeak)]
  rw [Set.uIcc_of_le hab] at ht ⊢
  obtain ⟨ha, hb⟩ := ht
  have hturn : 0 < 2 * Real.pi := Real.two_pi_pos
  -- The first peak from `a` on, and the one a turn before it.
  let n : ℤ := ⌈(a - φ) / (2 * Real.pi)⌉
  have hpeak : a ≤ φ + n * (2 * Real.pi) := by
    have hceil := Int.le_ceil ((a - φ) / (2 * Real.pi))
    rw [div_le_iff₀ hturn] at hceil
    linarith
  have hbefore : φ + n * (2 * Real.pi) - 2 * Real.pi < a := by
    have hceil := Int.ceil_lt_add_one ((a - φ) / (2 * Real.pi))
    rw [← sub_lt_iff_lt_add, lt_div_iff₀ hturn] at hceil
    linarith
  rcases le_or_gt (φ + n * (2 * Real.pi)) b with hwithin | hbehind
  · exact .inr (.inr ⟨n, hpeak, hwithin⟩)
  -- From peak to peak half the angle runs through half a turn, where cosines fall.
  let half (x : ℝ) : ℝ := (x - φ - n * (2 * Real.pi)) / 2 + Real.pi
  have hcos (x : ℝ) : Real.cos (x - φ) = 2 * Real.cos (half x) ^ 2 - 1 := by
    rw [← Real.cos_two_mul, ← Real.cos_sub_int_mul_two_pi (x - φ) (n - 1)]
    congr 1
    dsimp only [half]
    push_cast
    ring
  have hfalls {x y : ℝ} (hx : a ≤ x) (hxy : x ≤ y) (hy : y ≤ b) :
      Real.cos (half y) ≤ Real.cos (half x) := by
    apply Real.cos_le_cos_of_nonneg_of_le_pi
    all_goals dsimp only [half]; linarith
  have habs := abs_le_max_abs_abs (hfalls ha hb le_rfl) (hfalls le_rfl ha hb)
  rw [hcos, hcos, hcos]
  rcases le_max_iff.mp habs with hend | hstart
  · exact .inr (.inl (by linarith [sq_le_sq.mpr hend]))
  · exact .inl (by linarith [sq_le_sq.mpr hstart])

end BoardMill
