import BoardMill.Proofs.Scalar.Rounding

/-! # Nearest doubles

A number has one nearest double. Of two that are equally near it is the one with the even mantissa,
and an infinity is taken where the next double would be. What is rounded to the grid is nearest, and
so the double that a decimal stands for is nearest to it.
-/

namespace BoardMill.Double

open Float.Model (Format UnpackedFloat totalExponent)
open Float.Model.UnpackedFloat (Accuracy Sign divCore)

/-- A number on the side of zero that a sign tells. -/
def signed : Sign → ℚ → ℚ
  | .positive, x => x
  | .negative, x => -x

/-- What a double is worth. An infinity is worth as much as the next double would be. -/
def worth : UnpackedFloat → ℚ
  | .infinity s => signed s (2 ^ 1024)
  | .finite s m e _ => signed s (m * 2 ^ e)
  | .zero _ | .notANumber => 0

/-- The mantissa is even, as that of a zero and that of the double next to all are. -/
def IsEven : UnpackedFloat → Prop
  | .finite _ m _ _ => Even m
  | _ => True

/-- Of all doubles this one is nearest to a number that is not negative: any other one is farther
away, or it is as far away and odd. -/
structure IsNearest (q : ℚ) (x : Float) : Prop where
  isNumber : value x ≠ .notANumber
  unsigned : value x ≠ .zero .negative
  near : ∀ y : Float, value y ≠ .notANumber →
    worth (value y) = worth (value x) ∨
    |worth (value x) - q| < |worth (value y) - q| ∨
    (|worth (value x) - q| = |worth (value y) - q| ∧ IsEven (value x) ∧ ¬ IsEven (value y))

/-! ## Worth -/

variable {q : ℚ} {x y : Float}

theorem signed_eq_signed {s t : Sign} {a b : ℚ} (ha : 0 < a) (hb : 0 < b)
    (h : signed s a = signed t b) : s = t ∧ a = b := by
  cases s <;> cases t <;> simp only [signed] at h
  · exact ⟨rfl, neg_injective h⟩
  · linarith
  · linarith
  · exact ⟨rfl, h⟩

theorem signed_le (s : Sign) {a : ℚ} (ha : 0 < a) : signed s a ≤ a := by
  cases s with
  | positive => exact le_rfl
  | negative => exact neg_le_self ha.le

theorem signed_ne_zero (s : Sign) {a : ℚ} (ha : 0 < a) : signed s a ≠ 0 := by
  cases s with
  | positive => exact ha.ne'
  | negative => exact neg_ne_zero.mpr ha.ne'

theorem finite_pos {m : ℕ} (hm : 0 < m) (e : ℤ) : 0 < (m : ℚ) * 2 ^ e :=
  mul_pos (by exact_mod_cast hm) (by positivity)

theorem finite_lt_infinity {m : ℕ} {e : ℤ} (h : Canonical m e) (he : e ≤ 971) :
    (m : ℚ) * 2 ^ e < 2 ^ 1024 := by
  have hbounded : (m : ℚ) < 2 ^ 53 := by exact_mod_cast h.bounded
  calc (m : ℚ) * 2 ^ e < 2 ^ 53 * 2 ^ e := mul_lt_mul_of_pos_right hbounded (by positivity)
    _ ≤ 2 ^ 53 * 2 ^ (971 : ℤ) := by
      gcongr
      exact one_le_two
    _ = 2 ^ 1024 := by
      rw [← zpow_natCast, ← zpow_natCast, ← zpow_add₀ two_ne_zero]
      rfl

/-- A mantissa and its exponent are known by what they are worth. -/
theorem finite_injective {m n : ℕ} {e f : ℤ} (hm : Canonical m e) (hn : Canonical n f)
    (hmpos : 0 < m) (hnpos : 0 < n) (h : (m : ℚ) * 2 ^ e = n * 2 ^ f) : m = n ∧ e = f := by
  wlog hle : e ≤ f generalizing m n e f
  · exact (this hn hm hnpos hmpos h.symm (le_of_not_ge hle)).imp Eq.symm Eq.symm
  obtain ⟨k, rfl⟩ := Int.le.dest hle
  have hmantissa : m = n * 2 ^ k := by
    rw [zpow_add₀ two_ne_zero, zpow_natCast, mul_comm (2 ^ e : ℚ), ← mul_assoc] at h
    exact_mod_cast mul_right_cancel₀ (zpow_ne_zero e two_ne_zero) h
  cases k with
  | zero => exact ⟨by simpa using hmantissa, by simp⟩
  | succ k =>
      -- A greater exponent is not the least one, so all digits of its mantissa are used.
      have hfull : 2 ^ 52 ≤ n := hn.full.resolve_left (by have := hm.least; omega)
      have hdigit : 2 * n ≤ m := by
        rw [hmantissa, pow_succ, mul_comm 2 n, ← mul_assoc]
        exact Nat.mul_le_mul_right 2 (Nat.le_mul_of_pos_right n (by positivity))
      have hbounded := hm.bounded
      omega

theorem worth_le_infinity (y : Float) : worth (value y) ≤ 2 ^ 1024 := by
  have hpos : (0 : ℚ) < 2 ^ 1024 := by positivity
  cases hy : value y with
  | infinity s => exact signed_le s hpos
  | notANumber => exact hpos.le
  | zero s => exact hpos.le
  | finite s m e hm =>
      exact (signed_le s (finite_pos hm e)).trans
        (finite_lt_infinity (canonical_of_value hy) (exponent_le_of_value hy)).le

/-- Doubles of equal worth are equal, but for a zero with a minus and what is not a number. -/
theorem eq_of_worth_eq (hx : value x ≠ .notANumber) (hy : value y ≠ .notANumber)
    (hxzero : value x ≠ .zero .negative) (hyzero : value y ≠ .zero .negative)
    (h : worth (value x) = worth (value y)) : x = y := by
  have hpos : (0 : ℚ) < 2 ^ 1024 := by positivity
  apply value_injective
  cases hxvalue : value x with
  | notANumber => exact absurd hxvalue hx
  | zero s =>
      rw [hxvalue] at h hxzero
      cases hyvalue : value y with
      | notANumber => exact absurd hyvalue hy
      | zero t =>
          rw [hyvalue] at hyzero
          cases s <;> cases t <;> simp_all
      | infinity t => exact absurd (by rw [hyvalue] at h; exact h.symm) (signed_ne_zero t hpos)
      | finite t n f hn =>
          exact absurd (by rw [hyvalue] at h; exact h.symm) (signed_ne_zero t (finite_pos hn f))
  | infinity s =>
      rw [hxvalue] at h
      cases hyvalue : value y with
      | notANumber => exact absurd hyvalue hy
      | zero t => exact absurd (by rw [hyvalue] at h; exact h) (signed_ne_zero s hpos)
      | infinity t =>
          rw [hyvalue] at h
          rw [(signed_eq_signed hpos hpos h).1]
      | finite t n f hn =>
          rw [hyvalue] at h
          have hless :=
            finite_lt_infinity (canonical_of_value hyvalue) (exponent_le_of_value hyvalue)
          exact absurd (signed_eq_signed hpos (finite_pos hn f) h).2 hless.ne'
  | finite s m e hm =>
      rw [hxvalue] at h
      cases hyvalue : value y with
      | notANumber => exact absurd hyvalue hy
      | zero t => exact absurd (by rw [hyvalue] at h; exact h) (signed_ne_zero s (finite_pos hm e))
      | infinity t =>
          rw [hyvalue] at h
          have hless :=
            finite_lt_infinity (canonical_of_value hxvalue) (exponent_le_of_value hxvalue)
          exact absurd (signed_eq_signed (finite_pos hm e) hpos h).2 hless.ne
      | finite t n f hn =>
          rw [hyvalue] at h
          obtain ⟨rfl, hworth⟩ := signed_eq_signed (finite_pos hm e) (finite_pos hn f) h
          obtain ⟨rfl, rfl⟩ := finite_injective (canonical_of_value hxvalue)
            (canonical_of_value hyvalue) hm hn hworth
          rfl

/-- One double only is nearest. -/
theorem IsNearest.eq (hx : IsNearest q x) (hy : IsNearest q y) : x = y := by
  refine eq_of_worth_eq hx.isNumber hy.isNumber hx.unsigned hy.unsigned ?_
  rcases hx.near y hy.isNumber with hworth | hlt | ⟨heq, heven, hodd⟩
  · exact hworth.symm
  all_goals rcases hy.near x hx.isNumber with hworth | hlt' | ⟨heq', heven', hodd'⟩
  all_goals first | exact hworth | linarith | contradiction

/-! ## Doubles on the grid -/

theorem value_ofUnpacked_onGrid {n : ℕ} {t : ℤ} (hn : n ≤ 2 ^ 53) (ht : -1074 ≤ t) (hle : t ≤ 971)
    (hfull : t = -1074 ∨ 2 ^ 52 ≤ n) :
    (value (ofUnpacked (onGrid n t)) ≠ .notANumber ∧
      value (ofUnpacked (onGrid n t)) ≠ .zero .negative) ∧
    worth (value (ofUnpacked (onGrid n t))) = n * 2 ^ t ∧
    (Even n → IsEven (value (ofUnpacked (onGrid n t)))) := by
  by_cases hcarry : n = 2 ^ 53
  · have hworth : ((2 ^ 52 : ℕ) : ℚ) * 2 ^ (t + 1) = n * 2 ^ t := by
      rw [hcarry, zpow_add_one₀ two_ne_zero]
      push_cast
      ring
    rw [onGrid, if_pos hcarry]
    rcases Int.lt_or_eq_of_le hle with hlt | rfl
    · have hcanonical : Canonical (2 ^ 52) (t + 1) := ⟨by decide, by omega, .inr le_rfl⟩
      rw [value_ofUnpacked_finite hcanonical hlt]
      exact ⟨⟨by simp, by simp⟩, hworth, fun _ => ⟨2 ^ 51, rfl⟩⟩
    · rw [value_ofUnpacked_overflow (by decide)]
      refine ⟨⟨by simp, by simp⟩, ?_, fun _ => trivial⟩
      rw [← hworth, worth, signed, Nat.cast_pow, Nat.cast_two, ← zpow_natCast, ← zpow_natCast,
        ← zpow_add₀ two_ne_zero]
      rfl
  · rw [onGrid, if_neg hcarry]
    rcases Nat.eq_zero_or_pos n with rfl | hpos
    · rw [dif_neg (lt_irrefl 0), value_ofUnpacked_zero]
      refine ⟨⟨by simp, by simp⟩, ?_, fun _ => trivial⟩
      rw [Nat.cast_zero, zero_mul]
      rfl
    · rw [dif_pos hpos, value_ofUnpacked_finite ⟨lt_of_le_of_ne hn hcarry, ht, hfull⟩ hle]
      exact ⟨⟨by simp, by simp⟩, rfl, id⟩

theorem value_ofUnpacked_onGrid_overflow {n : ℕ} {t : ℤ} (hn : 0 < n) (ht : 971 < t) :
    value (ofUnpacked (onGrid n t)) = .infinity .positive := by
  unfold onGrid
  split
  · exact value_ofUnpacked_overflow (by omega)
  · exact value_ofUnpacked_overflow ht

/-- A double is a multiple on the grid of a number, an odd one if its mantissa is odd only, or it is
below a multiple that is not above the number. -/
theorem onGrid_or_below (hq : 0 < q) (hless : q < 2 ^ 1024) (y : Float) :
    (∃ j : ℤ, worth (value y) = j * 2 ^ gridExponent q ∧ (Odd j → ¬ IsEven (value y))) ∨
    ∃ j : ℤ, worth (value y) < j * 2 ^ gridExponent q ∧ j * 2 ^ gridExponent q ≤ q := by
  have hzero : worth (value y) = 0 →
      ∃ j : ℤ, worth (value y) = j * 2 ^ gridExponent q ∧ (Odd j → ¬ IsEven (value y)) :=
    fun h => ⟨0, by rw [h, Int.cast_zero, zero_mul], fun hodd => absurd hodd (by decide)⟩
  have hbelow : worth (value y) < 0 →
      ∃ j : ℤ, worth (value y) < j * 2 ^ gridExponent q ∧ j * 2 ^ gridExponent q ≤ q :=
    fun h => ⟨0, by rw [Int.cast_zero, zero_mul]; exact ⟨h, hq.le⟩⟩
  have hgrid := gridExponent_le hq hless
  cases hy : value y with
  | notANumber => exact .inl (hy ▸ hzero (by rw [hy]; rfl))
  | zero s => exact .inl (hy ▸ hzero (by rw [hy]; rfl))
  | infinity s =>
      cases s with
      | negative => exact .inr (hy ▸ hbelow (by rw [hy]; exact neg_lt_zero.mpr (by positivity)))
      | positive =>
          obtain ⟨k, hk⟩ : ∃ k : ℕ, (1024 : ℤ) = k + 1 + gridExponent q :=
            ⟨(1023 - gridExponent q).toNat, by omega⟩
          refine .inl ⟨2 ^ (k + 1), ?_, fun hodd => ?_⟩
          · change (2 : ℚ) ^ 1024 = _
            rw [Int.cast_pow, Int.cast_ofNat, ← zpow_natCast, ← zpow_natCast,
              ← zpow_add₀ two_ne_zero, Nat.cast_add_one k, ← hk]
            rfl
          · exact absurd hodd (Int.not_odd_iff_even.mpr ⟨2 ^ k, by ring⟩)
  | finite s m e hm =>
      have hcanonical := canonical_of_value hy
      cases s with
      | negative =>
          exact .inr (hy ▸ hbelow (by rw [hy]; exact neg_lt_zero.mpr (finite_pos hm e)))
      | positive =>
          rcases le_or_gt (gridExponent q) e with hle | hlt
          · obtain ⟨k, rfl⟩ := Int.le.dest hle
            refine .inl ⟨m * 2 ^ k, ?_, fun hodd heven => ?_⟩
            · change (m : ℚ) * 2 ^ (gridExponent q + k) = _
              rw [zpow_add₀ two_ne_zero, zpow_natCast]
              push_cast
              ring
            · exact Int.not_even_iff_odd.mpr hodd (((Int.even_coe_nat m).mpr heven).mul_right _)
          · have hleast := hcanonical.least
            refine .inr ⟨2 ^ 52, ?_, by exact_mod_cast grid_le hq (by omega)⟩
            have hbounded : (m : ℚ) < 2 ^ 53 := by exact_mod_cast hcanonical.bounded
            calc (m : ℚ) * 2 ^ e < 2 ^ 53 * 2 ^ e :=
                  mul_lt_mul_of_pos_right hbounded (by positivity)
              _ = 2 ^ 52 * 2 ^ (e + 1) := by rw [zpow_add_one₀ two_ne_zero]; ring
              _ ≤ 2 ^ 52 * 2 ^ gridExponent q := by
                gcongr
                · exact one_le_two
                · exact hlt
              _ = ((2 ^ 52 : ℤ) : ℚ) * 2 ^ gridExponent q := by push_cast; rfl

/-- A point of the grid is as far from a number as its multiple is from the number's. -/
theorem abs_grid_sub (n : ℤ) (t : ℤ) : |(n : ℚ) * 2 ^ t - q| = |n - q / 2 ^ t| * 2 ^ t := by
  have hpow : (0 : ℚ) < 2 ^ t := by positivity
  rw [← abs_of_pos hpow, ← abs_mul, sub_mul, abs_of_pos hpow, div_mul_cancel₀ _ hpow.ne']

section Grid

variable {n : ℕ} (hq : 0 < q) (hn : IsNearestInt (q / 2 ^ gridExponent q) n)
include hq hn

/-- The whole mantissa is used unless the exponent is the least one. -/
theorem full_of_isNearestInt : gridExponent q = -1074 ∨ 2 ^ 52 ≤ n := by
  have hpow : (0 : ℚ) < 2 ^ gridExponent q := by positivity
  rcases Int.lt_or_eq_of_le (le_gridExponent q) with hlt | heq
  · have hdigits := (le_div_iff₀ hpow).mpr (grid_le hq hlt)
    have hbelow := neg_abs_le (((n : ℤ) : ℚ) - q / 2 ^ gridExponent q)
    have hnear := hn.near
    rw [Int.cast_natCast] at hbelow hnear
    have hfull : ((2 ^ 52 : ℕ) : ℚ) < (n + 1 : ℕ) := by
      push_cast
      linarith
    exact .inr (Nat.lt_succ_iff.mp (by exact_mod_cast hfull))
  · exact .inl heq.symm

/-- No double is nearer than the nearest multiple on the grid, since none is between multiples. -/
theorem isNearest_onGrid (hless : q < 2 ^ 1024) :
    IsNearest q (ofUnpacked (onGrid n (gridExponent q))) := by
  have hpow : (0 : ℚ) < 2 ^ gridExponent q := by positivity
  obtain ⟨⟨hnumber, hunsigned⟩, hworth, heven⟩ := value_ofUnpacked_onGrid
    (le_of_isNearestInt hn) (le_gridExponent q) (gridExponent_le hq hless)
    (full_of_isNearestInt hq hn)
  refine ⟨hnumber, hunsigned, fun y _ => ?_⟩
  have hdistance := abs_grid_sub (q := q) n (gridExponent q)
  rw [Int.cast_natCast] at hdistance
  rw [hworth, hdistance]
  rcases onGrid_or_below hq hless y with ⟨j, hj, hodd⟩ | ⟨j, hbelow, hle⟩
  · rw [hj, abs_grid_sub]
    rcases hn.cases j with rfl | hlt | ⟨heq, heven', hodd'⟩
    · exact .inl rfl
    · exact .inr (.inl (mul_lt_mul_of_pos_right hlt hpow))
    · exact .inr (.inr ⟨by rw [← heq]; rfl, heven ((Int.even_coe_nat n).mp heven'), hodd hodd'⟩)
  · -- The multiple in between is not nearer than the nearest one.
    have hcloser : |((n : ℤ) : ℚ) - q / 2 ^ gridExponent q| ≤ |j - q / 2 ^ gridExponent q| := by
      rcases hn.cases j with rfl | hlt | ⟨heq, -, -⟩
      · exact le_rfl
      · exact hlt.le
      · exact heq.le
    have hscaled := mul_le_mul_of_nonneg_right hcloser hpow.le
    rw [← abs_grid_sub j, abs_of_nonpos (sub_nonpos.mpr hle)] at hscaled
    refine .inr (.inl (hscaled.trans_lt ?_))
    rw [abs_of_neg (by linarith)]
    linarith

/-- Behind all doubles the infinity is the nearest one. -/
theorem isNearest_onGrid_overflow (hover : 2 ^ 1024 ≤ q) :
    IsNearest q (ofUnpacked (onGrid n (gridExponent q))) := by
  have hgrid := lt_gridExponent hover
  have hvalue := value_ofUnpacked_onGrid_overflow
    (Nat.lt_of_lt_of_le (by decide) ((full_of_isNearestInt hq hn).resolve_left (by omega))) hgrid
  refine ⟨by simp [hvalue], by simp [hvalue], fun y _ => ?_⟩
  rw [hvalue]
  change worth (value y) = 2 ^ 1024 ∨ |2 ^ 1024 - q| < |worth (value y) - q| ∨ _
  rcases (worth_le_infinity y).eq_or_lt with heq | hlt
  · exact .inl heq
  · refine .inr (.inl ?_)
    rw [abs_of_nonpos (sub_nonpos.mpr hover), abs_of_neg (sub_neg.mpr (hlt.trans_le hover))]
    exact neg_lt_neg (sub_lt_sub_right hlt q)

end Grid

/-- What a number is rounded to is the nearest double. -/
theorem IsRounded.isNearest {u : UnpackedFloat} (hq : 0 < q) (h : IsRounded q u) :
    IsNearest q (ofUnpacked u) := by
  obtain ⟨n, hn, rfl⟩ := h
  rcases lt_or_ge q (2 ^ 1024) with hless | hover
  · exact isNearest_onGrid hq hn hless
  · exact isNearest_onGrid_overflow hq hn hover

end BoardMill.Double
