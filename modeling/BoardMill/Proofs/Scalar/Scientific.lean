import BoardMill.Proofs.Scalar.Nearest

/-! # Doubles of decimals

A decimal is turned into a double by one division that rounds: of numbers that doubles hold exactly,
if its digits and its power of ten are small enough, and of integers of any size otherwise. Either
way the nearest double comes out, which may be zero or infinite.
-/

namespace BoardMill.Double

open Float.Model (Format UnpackedFloat totalExponent)
open Float.Model.UnpackedFloat (ExtendedMantissa decreaseExponent divCore roundWithAccuracy)

/-! ## Quotients -/

theorem le_gridExponent_div {m n : ℕ} {e f : ℤ} (hm : 0 < m) (hn : 0 < n) :
    Format.binary64.targetExponent (totalExponent m e - totalExponent n f) ≤
      gridExponent (m * 2 ^ e / (n * 2 ^ f)) := by
  have htarget : Format.binary64.targetExponent (totalExponent m e - totalExponent n f) =
      max ((m.log2 : ℤ) + 1 + e - (n.log2 + 1 + f) - 53) (-1074) := rfl
  have hbelow : ((2 ^ m.log2 : ℕ) : ℚ) ≤ m := by exact_mod_cast Nat.log2_self_le hm.ne'
  have habove : (n : ℚ) ≤ (2 ^ (n.log2 + 1) : ℕ) := by exact_mod_cast Nat.lt_log2_self.le
  push_cast at hbelow habove
  have hlog : (m.log2 : ℤ) + e - (n.log2 + 1 + f) ≤ Int.log 2 ((m : ℚ) * 2 ^ e / (n * 2 ^ f)) := by
    rw [← Int.zpow_le_iff_le_log (by decide : 1 < 2) (div_pos (finite_pos hm e) (finite_pos hn f)),
      Nat.cast_two, zpow_sub₀ two_ne_zero, zpow_add₀ two_ne_zero, zpow_add₀ two_ne_zero]
    refine div_le_div₀ (finite_pos hm e).le (mul_le_mul_of_nonneg_right ?_ (by positivity))
      (finite_pos hn f) (mul_le_mul_of_nonneg_right ?_ (by positivity))
    · exact_mod_cast hbelow
    · exact_mod_cast habove
  rw [htarget]
  unfold gridExponent
  omega

theorem isRounded_div {m n : ℕ} {e f : ℤ} (hm : 0 < m) (hn : 0 < n) :
    IsRounded (m * 2 ^ e / (n * 2 ^ f))
      (UnpackedFloat.div .binary64 (.finite .positive m e hm) (.finite .positive n f hn)) := by
  obtain ⟨target, htarget⟩ : ∃ target, target = min (e - f)
      (Format.binary64.targetExponent (totalExponent m e - totalExponent n f)) := ⟨_, rfl⟩
  obtain ⟨shift, hshift⟩ : ∃ shift : ℕ, e - f = target + shift :=
    ⟨(e - f - target).toNat, by omega⟩
  have hdivCore : divCore .binary64 m e n f = (m <<< shift / n, target,
      UnpackedFloat.accuracyOfFraction (m <<< shift % n) n) := by
    have hcount : (e - f - target).toNat = shift := by omega
    unfold divCore
    dsimp only
    rw [← htarget, hcount]
  change IsRounded _ (match divCore .binary64 m e n f with
    | (m, e, accuracy) => roundWithAccuracy .binary64 .positive m e accuracy)
  rw [hdivCore]
  refine isRounded_roundWithAccuracy (div_pos (finite_pos hm e) (finite_pos hn f))
    (represents_quotient _ hn) ?_ ?_
  · have hnpos : (n : ℚ) ≠ 0 := by exact_mod_cast hn.ne'
    have hexponent : e = f + target + shift := by omega
    rw [hexponent, zpow_add₀ two_ne_zero, zpow_add₀ two_ne_zero, Nat.shiftLeft_eq]
    push_cast
    rw [zpow_natCast]
    field_simp
  · have hle := le_gridExponent_div (e := e) (f := f) hm hn
    omega

theorem isRounded_mul {q : ℚ} {m n : ℕ} {e f : ℤ} (hm : 0 < m) (hn : 0 < n)
    (hq : ((m * n : ℕ) : ℚ) * 2 ^ (e + f) = q) (hle : e + f ≤ gridExponent q) :
    IsRounded q
      (UnpackedFloat.mul .binary64 (.finite .positive m e hm) (.finite .positive n f hn)) :=
  isRounded_roundWithAccuracy (hq ▸ finite_pos (Nat.mul_pos hm hn) _) (represents_exact _) hq hle

/-! ## Numbers that doubles hold -/

theorem shiftLeft_pos {m : ℕ} (hm : 0 < m) (k : ℕ) : 0 < m <<< k := by
  rw [Nat.shiftLeft_eq]
  positivity

/-- A mantissa that is not too long is packed as it is. -/
theorem roundWithAccuracy_of_lt {n : ℕ} {e : ℤ} (hn : 0 < n) (hless : n < 2 ^ 53)
    (he : -1074 ≤ e) :
    roundWithAccuracy .binary64 .positive n e .exact = .finite .positive n e hn := by
  have hrounded : (⟨n, false, false⟩ : ExtendedMantissa).roundedMantissa = n := rfl
  unfold roundWithAccuracy
  simp only [shiftToTargetExponent_of_lt hless he, hrounded, dif_neg hn.ne']

theorem value_toFloat {m : ℕ} (hpos : 0 < m) (hless : m < 2 ^ 53) :
    ∃ n e, ∃ hn : 0 < n, value m.toUInt64.toFloat = .finite .positive n e hn ∧
      (n : ℚ) * 2 ^ e = m := by
  have hlog : m.log2 ≤ 52 := Nat.le_of_lt_succ ((Nat.log2_lt hpos.ne').mpr hless)
  obtain ⟨k, hk⟩ := Nat.exists_eq_add_of_le hlog
  have hn := shiftLeft_pos hpos k
  have hfull : 2 ^ 52 ≤ m <<< k := by
    rw [Nat.shiftLeft_eq, hk, pow_add]
    exact Nat.mul_le_mul_right _ (Nat.log2_self_le hpos.ne')
  have hbounded : m <<< k < 2 ^ 53 := by
    rw [Nat.shiftLeft_eq, show 53 = m.log2 + 1 + k by omega, pow_add]
    exact Nat.mul_lt_mul_of_pos_right Nat.lt_log2_self (by positivity)
  have hround :
      UnpackedFloat.round .binary64 .positive m 0 = .finite .positive (m <<< k) (-k) hn := by
    have htarget : Format.binary64.targetExponent (totalExponent m 0) =
        max ((m.log2 : ℤ) + 1 + 0 - 53) (-1074) := rfl
    have hcount : (0 - Format.binary64.targetExponent (totalExponent m 0)).toNat = k := by
      rw [htarget]
      omega
    unfold UnpackedFloat.round decreaseExponent
    dsimp only
    rw [hcount, zero_sub]
    exact roundWithAccuracy_of_lt hn hbounded (by omega)
  have hvalue : value m.toUInt64.toFloat =
      value (ofUnpacked (UnpackedFloat.ofInt .binary64 (m.toUInt64.toNat : ℤ))) := rfl
  have hword : m.toUInt64.toNat = m :=
    UInt64.toNat_ofNat'.trans (Nat.mod_eq_of_lt (hless.trans (by decide)))
  have hofInt :
      UnpackedFloat.ofInt .binary64 (m : ℤ) = UnpackedFloat.round .binary64 .positive m 0 := by
    cases m with
    | zero => exact absurd hpos (lt_irrefl 0)
    | succ m => rfl
  refine ⟨m <<< k, -k, hn, ?_, ?_⟩
  · rw [hvalue, hword, hofInt, hround]
    exact value_ofUnpacked_finite ⟨hbounded, by omega, .inr hfull⟩ (by omega)
  · rw [Nat.shiftLeft_eq, zpow_neg, zpow_natCast]
    push_cast
    field_simp

/-- The powers of ten that a division takes from a table are those whose power of five has no more
digits than a mantissa. -/
theorem value_powerOfTen {k : ℕ} (hk : k < Float.exactlyRepresentablePowersOfTen.size) :
    ∃ n e, ∃ hn : 0 < n,
      value Float.exactlyRepresentablePowersOfTen[k] = .finite .positive n e hn ∧
        (n : ℚ) * 2 ^ e = 10 ^ k := by
  have htable : ∀ k : Fin 23, value Float.exactlyRepresentablePowersOfTen[k] =
      .finite .positive (5 ^ k.val <<< (52 - (5 ^ k.val).log2))
        (k.val - (52 - (5 ^ k.val).log2 : ℕ)) (shiftLeft_pos (by positivity) _) := by
    intro k
    fin_cases k <;> rfl
  refine ⟨_, _, _, htable ⟨k, hk⟩, ?_⟩
  rw [Nat.shiftLeft_eq, zpow_sub₀ two_ne_zero, zpow_natCast, zpow_natCast,
    show (10 : ℚ) = 5 * 2 by norm_num, mul_pow]
  push_cast
  field_simp

/-! ## Decimals -/

theorem isNearest_zero : IsNearest 0 (ofUnpacked (.zero .positive)) where
  isNumber := by rw [value_ofUnpacked_zero]; nofun
  unsigned := by rw [value_ofUnpacked_zero]; nofun
  near y _ := by
    rw [value_ofUnpacked_zero]
    change worth (value y) = 0 ∨ |0 - 0| < |worth (value y) - 0| ∨ _
    rw [sub_zero, sub_zero, abs_zero]
    exact (eq_or_ne _ _).imp_right fun h => .inl (abs_pos.mpr h)

/-- A number that is too small for every double is rounded to zero. -/
theorem isRounded_zero {q : ℚ} (hq : 0 < q) (h : q ≤ 2 ^ (-1076 : ℤ)) :
    IsRounded q (.zero .positive) := by
  have hgrid : gridExponent q = -1074 := by
    have hlog : Int.log 2 q < -1075 := by
      rw [← Int.lt_zpow_iff_log_lt (by decide : 1 < 2) hq]
      exact h.trans_lt (zpow_lt_zpow_right₀ one_lt_two (by decide))
    unfold gridExponent
    omega
  have hsmall : q / 2 ^ gridExponent q ≤ 1 / 4 := by
    rw [hgrid, div_le_iff₀ (by positivity)]
    refine h.trans (le_of_eq ?_)
    rw [show (-1076 : ℤ) = -2 + -1074 by rfl, zpow_add₀ two_ne_zero]
    norm_num
  have hpos : 0 < q / 2 ^ gridExponent q := div_pos hq (by positivity)
  have habs : |((0 : ℕ) : ℤ) - q / 2 ^ gridExponent q| = q / 2 ^ gridExponent q := by
    rw [Nat.cast_zero, Int.cast_zero, zero_sub, abs_neg, abs_of_pos hpos]
  exact ⟨0, ⟨by rw [habs]; linarith, fun heq => by rw [habs] at heq; linarith⟩, rfl⟩

/-- With so many places the first digit is too small. -/
theorem div_pow_ten_le {m k : ℕ} (h : 2048 + m.log2 < k) :
    (m : ℚ) / 10 ^ k ≤ 2 ^ (-1076 : ℤ) := by
  have hdigits : (m : ℚ) ≤ 2 ^ (m.log2 + 1) := by exact_mod_cast Nat.lt_log2_self.le
  have htens : (2 : ℚ) ^ (m.log2 + 1 + 1076) ≤ 10 ^ k :=
    (pow_le_pow_right₀ one_le_two (by omega)).trans (pow_le_pow_left₀ two_pos.le (by norm_num) k)
  rw [div_le_iff₀ (by positivity), zpow_neg, ← div_eq_inv_mul, le_div_iff₀ (by positivity)]
  rw [pow_add] at htens
  exact (mul_le_mul_of_nonneg_right hdigits (by positivity)).trans htens

theorem isRounded_ofScientific {m : ℕ} (hm : 0 < m) (k : ℕ) :
    IsRounded (m / 10 ^ k) (UnpackedFloat.ofScientific .binary64 m (Int.negOfNat k)) := by
  have hq : (0 : ℚ) < m / 10 ^ k := div_pos (by exact_mod_cast hm) (by positivity)
  have hpow : 0 < 10 ^ k := by positivity
  have hneg : Int.negOfNat k = -(k : ℤ) := Int.negOfNat_eq
  have hbig : ¬ Int.negOfNat k > 2 ^ Format.binary64.exponentBits := by
    rw [hneg]
    change ¬ -(k : ℤ) > 2048
    omega
  unfold UnpackedFloat.ofScientific
  rw [dif_neg hm.ne', if_neg hbig]
  split
  next htiny =>
    rw [hneg] at htiny
    change -(k : ℤ) < -(2048 + m.log2) at htiny
    exact isRounded_zero hq (div_pow_ten_le (by omega))
  next =>
    split
    next hwhole =>
      -- Without places the shifted mantissa is multiplied by a power of ten that is one.
      obtain rfl : k = 0 := by omega
      refine isRounded_mul _ _ ?_ ?_
      · change ((m <<< 53 * 1 : ℕ) : ℚ) * 2 ^ (-53 : ℤ) = _
        rw [mul_one, Nat.shiftLeft_eq, zpow_neg, pow_zero, div_one]
        push_cast
        exact mul_inv_cancel_right₀ (by positivity) _
      · have hone : (1 : ℚ) ≤ m / 10 ^ 0 := by
          rw [pow_zero, div_one]
          exact_mod_cast hm
        have hlog : Int.log 2 (1 : ℚ) ≤ Int.log 2 ((m : ℚ) / 10 ^ 0) :=
          Int.log_mono_right one_pos hone
        rw [Int.log_one_right] at hlog
        change (-53 : ℤ) ≤ _
        unfold gridExponent
        omega
    next hfraction =>
      have hcount : (-Int.negOfNat k).toNat = k := by omega
      have hdiv := isRounded_div (e := 0) (f := 0) hm hpow
      rw [zpow_zero, mul_one, mul_one, Nat.cast_pow, Nat.cast_ofNat] at hdiv
      simp only [hcount]
      exact hdiv

theorem ofScientific_zero (k : ℕ) : Float.ofScientific 0 true k = ofUnpacked (.zero .positive) := by
  unfold Float.ofScientific
  split
  next hsmall =>
    have hindex : k < Float.exactlyRepresentablePowersOfTen.size := Nat.lt_succ_of_le hsmall.2
    obtain ⟨n, e, hn, htens, -⟩ := value_powerOfTen hindex
    change ofUnpacked (UnpackedFloat.div .binary64 (.zero .positive)
      (value Float.exactlyRepresentablePowersOfTen[k])) = _
    rw [htens]
    rfl
  next => rfl

/-- The double of a decimal is the nearest one. -/
theorem isNearest_ofScientific (m k : ℕ) :
    IsNearest (m / 10 ^ k) (Float.ofScientific m true k) := by
  rcases Nat.eq_zero_or_pos m with rfl | hm
  · rw [ofScientific_zero, Nat.cast_zero, zero_div]
    exact isNearest_zero
  have hq : (0 : ℚ) < m / 10 ^ k := div_pos (by exact_mod_cast hm) (by positivity)
  unfold Float.ofScientific
  split
  next hsmall =>
    have hindex : k < Float.exactlyRepresentablePowersOfTen.size := Nat.lt_succ_of_le hsmall.2
    obtain ⟨n, e, hn, hdigits, hm⟩ := value_toFloat hm hsmall.1
    obtain ⟨n', f, hn', htens, hk⟩ := value_powerOfTen hindex
    have hdiv := isRounded_div (e := e) (f := f) hn hn'
    rw [hm, hk] at hdiv
    change IsNearest _ (ofUnpacked (UnpackedFloat.div .binary64 (value m.toUInt64.toFloat)
      (value Float.exactlyRepresentablePowersOfTen[k])))
    rw [hdigits, htens]
    exact hdiv.isNearest hq
  next => exact (isRounded_ofScientific hm k).isNearest hq

theorem isNearest_iff {m k : ℕ} {x : Float} :
    IsNearest (m / 10 ^ k) x ↔ x = Float.ofScientific m true k :=
  ⟨fun h => h.eq (isNearest_ofScientific m k), fun h => h ▸ isNearest_ofScientific m k⟩

end BoardMill.Double
