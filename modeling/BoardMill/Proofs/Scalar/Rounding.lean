import BoardMill.Proofs.Scalar.Packed

/-! # Rounding to the grid

The doubles close to a number are the multiples of one power of two. An operation computes as many
digits of its result as the mantissa can have and tells the rest by two bits; what it rounds to is
the nearest multiple, of two that are equally near the even one.
-/

namespace BoardMill

/-- An integer is nearest to a number, the even one of two that are equally near. -/
structure IsNearestInt (x : ℚ) (n : ℤ) : Prop where
  near : 2 * |n - x| ≤ 1
  even : 2 * |n - x| = 1 → Even n

/-- All other integers are farther away, but for an odd one that may be equally near. -/
theorem IsNearestInt.cases {x : ℚ} {n : ℤ} (h : IsNearestInt x n) (j : ℤ) :
    j = n ∨ |n - x| < |j - x| ∨ (|n - x| = |j - x| ∧ Even n ∧ Odd j) := by
  rcases eq_or_ne j n with heq | hne
  · exact .inl heq
  have hapart : (1 : ℚ) ≤ |(j : ℚ) - n| := by exact_mod_cast Int.one_le_abs (sub_ne_zero.mpr hne)
  have htriangle : |(j : ℚ) - n| ≤ |j - x| + |n - x| := by
    rw [abs_sub_comm (n : ℚ) x]
    exact abs_sub_le _ _ _
  have hnear := h.near
  rcases lt_or_ge |(n : ℚ) - x| |(j : ℚ) - x| with hlt | hge
  · exact .inr (.inl hlt)
  have heven : Even n := h.even (by linarith)
  have hunit : |j - n| = 1 := by
    have hle : |(j : ℚ) - n| ≤ 1 := by linarith
    exact le_antisymm (by exact_mod_cast hle) (Int.one_le_abs (sub_ne_zero.mpr hne))
  have hodd : Odd (j - n) := odd_abs.mp (hunit ▸ odd_one)
  exact .inr (.inr ⟨by linarith, heven, by simpa using hodd.add_even heven⟩)

theorem isNearestInt_intCast (n : ℤ) : IsNearestInt n n where
  near := by norm_num
  even h := by norm_num at h

namespace Double

open Float.Model (Format UnpackedFloat totalExponent)
open Float.Model.UnpackedFloat (Accuracy ExtendedMantissa Sign accuracyOfFraction divCore
  roundWithAccuracy shiftToTargetExponent shiftToExponent)

/-! ## Mantissas with a rest -/

/-- What is left of a number behind its integer part, as two bits tell it: whether it is half a unit
at least, and whether there is anything beyond that. -/
def IsRest (half beyond : Bool) (r : ℚ) : Prop :=
  match half, beyond with
  | false, false => r = 0
  | false, true => 0 < r ∧ r < 1 / 2
  | true, false => r = 1 / 2
  | true, true => 1 / 2 < r ∧ r < 1

/-- A mantissa with its two further bits tells as much of a number as rounding has to know. -/
def Represents (em : ExtendedMantissa) (x : ℚ) : Prop :=
  IsRest em.roundBit em.stickyBit (x - em.mantissa)

theorem represents_exact (m : ℕ) :
    Represents (ExtendedMantissa.ofMantissaAndAccuracy m .exact) m :=
  sub_self (m : ℚ)

/-- A proper fraction behind a mantissa is told by how its double compares with one. -/
theorem represents_fraction (m : ℕ) {num den : ℕ} (h : num < den) :
    Represents (.ofMantissaAndAccuracy m (accuracyOfFraction num den)) (m + num / den) := by
  have hpos : (0 : ℚ) < den := by exact_mod_cast (Nat.zero_le num).trans_lt h
  have hless : (num : ℚ) < den := by exact_mod_cast h
  unfold accuracyOfFraction
  split
  next hzero =>
    change (m : ℚ) + num / den - m = 0
    rw [add_sub_cancel_left, hzero, Nat.cast_zero, zero_div]
  next hzero =>
    have hsome : (0 : ℚ) < num := by exact_mod_cast Nat.pos_of_ne_zero hzero
    cases hcompare : compare (2 * num) den with
    | lt =>
        have hlt : (2 * num : ℚ) < den := by exact_mod_cast Nat.compare_eq_lt.mp hcompare
        change 0 < (m : ℚ) + num / den - m ∧ (m : ℚ) + num / den - m < 1 / 2
        rw [add_sub_cancel_left, div_lt_div_iff₀ hpos two_pos]
        exact ⟨div_pos hsome hpos, by linarith⟩
    | eq =>
        have heq : (2 * num : ℚ) = den := by exact_mod_cast Nat.compare_eq_eq.mp hcompare
        change (m : ℚ) + num / den - m = 1 / 2
        rw [add_sub_cancel_left, div_eq_div_iff hpos.ne' two_ne_zero]
        linarith
    | gt =>
        have hgt : (den : ℚ) < 2 * num := by exact_mod_cast Nat.compare_eq_gt.mp hcompare
        change 1 / 2 < (m : ℚ) + num / den - m ∧ (m : ℚ) + num / den - m < 1
        rw [add_sub_cancel_left, div_lt_div_iff₀ two_pos hpos, div_lt_one hpos]
        exact ⟨by linarith, hless⟩

theorem represents_quotient (num : ℕ) {den : ℕ} (hden : 0 < den) :
    Represents (.ofMantissaAndAccuracy (num / den) (accuracyOfFraction (num % den) den))
      (num / den) := by
  have hpos : (0 : ℚ) < den := by exact_mod_cast hden
  have hparts : (num : ℚ) / den = (num / den : ℕ) + (num % den : ℕ) / den := by
    rw [← mul_div_cancel_right₀ ((num / den : ℕ) : ℚ) hpos.ne', ← add_div]
    exact congrArg (· / (den : ℚ)) (by exact_mod_cast (Nat.div_add_mod' num den).symm)
  rw [hparts]
  exact represents_fraction _ (Nat.mod_lt num hden)

namespace Represents

variable {em : ExtendedMantissa} {x : ℚ}

theorem le (h : Represents em x) : em.mantissa ≤ x := by
  rcases em with ⟨m, half, beyond⟩
  cases half <;> cases beyond <;> simp only [Represents, IsRest] at h <;> linarith

theorem lt (h : Represents em x) : x < em.mantissa + 1 := by
  rcases em with ⟨m, half, beyond⟩
  cases half <;> cases beyond <;> simp only [Represents, IsRest] at h <;> linarith

theorem shiftRightOne (h : Represents em x) : Represents em.shiftRightOne (x / 2) := by
  rcases em with ⟨m, half, beyond⟩
  have hparts : (m : ℚ) = 2 * (m / 2 : ℕ) + (m % 2 : ℕ) := by
    exact_mod_cast (Nat.div_add_mod m 2).symm
  unfold Represents ExtendedMantissa.shiftRightOne
  unfold Represents at h
  dsimp only at h ⊢
  rw [hparts] at h
  -- The bit that is shifted out becomes the half, and the half before it goes to what is beyond.
  rcases Nat.mod_two_eq_zero_or_one m with hbit | hbit
  all_goals
    rw [hbit] at h ⊢
    push_cast at h
    cases half <;> cases beyond
  all_goals
    simp only [IsRest, bne_self_eq_false, Bool.or_false, Bool.or_true, Nat.reduceBNe] at h ⊢
    first
    | linarith
    | exact ⟨by linarith, by linarith⟩

theorem shiftRight (h : Represents em x) (n : ℕ) : Represents (em >>> n) (x / 2 ^ n) := by
  change Represents (n.repeat ExtendedMantissa.shiftRightOne em) _
  induction n with
  | zero => simpa [Nat.repeat] using h
  | succ n ih =>
      rw [Nat.repeat, pow_succ, ← div_div]
      exact ih.shiftRightOne

theorem isNearestInt (h : Represents em x) : IsNearestInt x em.roundedMantissa := by
  rcases em with ⟨m, half, beyond⟩
  unfold Represents at h
  dsimp only at h
  cases half <;> cases beyond
  · change IsNearestInt x (m : ℤ)
    obtain rfl : x = (m : ℤ) := sub_eq_zero.mp h
    exact isNearestInt_intCast m
  · change IsNearestInt x (m : ℤ)
    have habs : |((m : ℤ) : ℚ) - x| = x - m := by
      rw [abs_sub_comm, Int.cast_natCast]
      exact abs_of_pos h.1
    exact ⟨by rw [habs]; linarith [h.2], fun heq => by rw [habs] at heq; linarith [h.2]⟩
  · change IsNearestInt x ((m + m % 2 : ℕ) : ℤ)
    have heven : Even ((m + m % 2 : ℕ) : ℤ) := by
      rw [Int.even_coe_nat, Nat.even_iff]
      omega
    have hx : x = m + 1 / 2 := by linarith [show x - m = 1 / 2 from h]
    refine ⟨le_of_eq ?_, fun _ => heven⟩
    rcases Nat.mod_two_eq_zero_or_one m with hbit | hbit
    all_goals
      rw [hbit, hx]
      push_cast
    · rw [show (m : ℚ) + 0 - (m + 1 / 2) = -(1 / 2) by ring, abs_neg, abs_of_pos] <;> norm_num
    · rw [show (m : ℚ) + 1 - (m + 1 / 2) = 1 / 2 by ring, abs_of_pos] <;> norm_num
  · change IsNearestInt x ((m + 1 : ℕ) : ℤ)
    have habs : |(((m + 1 : ℕ) : ℤ) : ℚ) - x| = m + 1 - x := by
      push_cast
      exact abs_of_pos (by linarith [h.2])
    exact ⟨by rw [habs]; linarith [h.1], fun heq => by rw [habs] at heq; linarith [h.1]⟩

end Represents

/-! ## The grid of a number -/

/-- The exponent of two that doubles close to a number are multiples of. -/
def gridExponent (q : ℚ) : ℤ := max (Int.log 2 q - 52) (-1074)

variable {q : ℚ}

theorem le_gridExponent (q : ℚ) : -1074 ≤ gridExponent q := le_max_right _ _

theorem lt_grid (q : ℚ) : q / 2 ^ gridExponent q < 2 ^ 53 := by
  have hlog : q < (2 : ℚ) ^ (Int.log 2 q + 1) :=
    Int.lt_zpow_succ_log_self (by decide : 1 < 2) q
  rw [div_lt_iff₀ (by positivity), ← zpow_natCast, ← zpow_add₀ two_ne_zero]
  refine hlog.trans_le (zpow_le_zpow_right₀ one_le_two ?_)
  unfold gridExponent
  omega

/-- Unless the grid is the finest one, numbers on it have as many digits as a mantissa can have. -/
theorem grid_le (hq : 0 < q) (h : -1074 < gridExponent q) : 2 ^ 52 * 2 ^ gridExponent q ≤ q := by
  have hlog : (2 : ℚ) ^ Int.log 2 q ≤ q := Int.zpow_log_le_self (by decide : 1 < 2) hq
  have hexponent : (52 : ℕ) + gridExponent q = Int.log 2 q := by
    unfold gridExponent at h ⊢
    omega
  rwa [← zpow_natCast, ← zpow_add₀ two_ne_zero, hexponent]

theorem gridExponent_le (hq : 0 < q) (h : q < 2 ^ 1024) : gridExponent q ≤ 971 := by
  have hlog : Int.log 2 q < 1024 := by
    rw [← Int.lt_zpow_iff_log_lt (by decide : 1 < 2) hq]
    exact_mod_cast h
  unfold gridExponent
  omega

theorem lt_gridExponent (h : 2 ^ 1024 ≤ q) : 971 < gridExponent q := by
  have hq : 0 < q := lt_of_lt_of_le (by positivity) h
  have hlog : 1024 ≤ Int.log 2 q := by
    rw [← Int.zpow_le_iff_le_log (by decide : 1 < 2) hq]
    exact_mod_cast h
  unfold gridExponent
  omega

/-- The exponent that a mantissa is shifted to is that of the grid, also where nothing but a rest is
there. -/
theorem targetExponent_eq {m : ℕ} {x : ℚ} {e : ℤ} (hq : 0 < q) (hm : (m : ℚ) ≤ x)
    (hx : x < m + 1) (hvalue : x * 2 ^ e = q) (he : e ≤ gridExponent q) :
    Format.binary64.targetExponent (totalExponent m e) = gridExponent q := by
  have hpow : (0 : ℚ) < 2 ^ e := by positivity
  have htarget : Format.binary64.targetExponent (totalExponent m e) =
      max ((m.log2 : ℤ) + 1 + e - 53) (-1074) := rfl
  rw [htarget]
  unfold gridExponent at he ⊢
  rcases Nat.eq_zero_or_pos m with rfl | hpos
  · -- Nothing but a rest is there, which happens on the finest grid only.
    have hlog : Int.log 2 q < e := by
      rw [← Int.lt_zpow_iff_log_lt (by decide : 1 < 2) hq, ← hvalue]
      exact (mul_lt_iff_lt_one_left hpow).mpr (by simpa using hx)
    have hzero : Nat.log2 0 = 0 := rfl
    omega
  · have hbelow : (m.log2 : ℤ) + e ≤ Int.log 2 q := by
      rw [← Int.zpow_le_iff_le_log (by decide : 1 < 2) hq, ← hvalue, Nat.cast_two,
        zpow_add₀ two_ne_zero, zpow_natCast]
      have hfirst : ((2 ^ m.log2 : ℕ) : ℚ) ≤ m := by exact_mod_cast Nat.log2_self_le hpos.ne'
      push_cast at hfirst
      exact mul_le_mul_of_nonneg_right (hfirst.trans hm) hpow.le
    have habove : Int.log 2 q < (m.log2 : ℤ) + 1 + e := by
      have hlast : ((m + 1 : ℕ) : ℚ) ≤ (2 ^ (m.log2 + 1) : ℕ) := by exact_mod_cast Nat.lt_log2_self
      push_cast at hlast
      rw [← Int.lt_zpow_iff_log_lt (by decide : 1 < 2) hq, ← hvalue, Nat.cast_two,
        zpow_add₀ two_ne_zero]
      refine mul_lt_mul_of_pos_right (hx.trans_le ?_) hpow
      exact_mod_cast hlast
    omega

/-- A multiple of a power of two, not more than a mantissa can be rounded up to. -/
def onGrid (n : ℕ) (t : ℤ) : UnpackedFloat :=
  if n = 2 ^ 53 then .finite .positive (2 ^ 52) (t + 1) (by decide)
  else if h : 0 < n then .finite .positive n t h
  else .zero .positive

theorem shiftToTargetExponent_of_lt {n : ℕ} {t : ℤ} (hn : n < 2 ^ 53) (ht : -1074 ≤ t) :
    shiftToTargetExponent .binary64 n t .exact = (⟨n, false, false⟩, t) := by
  have htarget : Format.binary64.targetExponent (totalExponent n t) =
      max ((n.log2 : ℤ) + 1 + t - 53) (-1074) := rfl
  have hlog : n.log2 ≤ 52 := by
    rcases Nat.eq_zero_or_pos n with rfl | hpos
    · decide
    · exact Nat.le_of_lt_succ ((Nat.log2_lt hpos.ne').mpr hn)
  have hshift : (Format.binary64.targetExponent (totalExponent n t) - t).toNat = 0 := by
    rw [htarget]
    omega
  unfold shiftToTargetExponent shiftToExponent
  dsimp only
  rw [hshift, Nat.cast_zero, add_zero]
  rfl

/-- A mantissa that was rounded up to one digit more loses its last digit, a zero. -/
theorem shiftToTargetExponent_carry {t : ℤ} (ht : -1074 ≤ t) :
    shiftToTargetExponent .binary64 (2 ^ 53) t .exact = (⟨2 ^ 52, false, false⟩, t + 1) := by
  have htarget : Format.binary64.targetExponent (totalExponent (2 ^ 53) t) =
      max (((2 ^ 53 : ℕ).log2 : ℤ) + 1 + t - 53) (-1074) := rfl
  have hshift : (Format.binary64.targetExponent (totalExponent (2 ^ 53) t) - t).toNat = 1 := by
    rw [htarget, Nat.log2_two_pow]
    omega
  unfold shiftToTargetExponent shiftToExponent
  dsimp only
  rw [hshift]
  rfl

theorem onGrid_of_shift {n : ℕ} {t : ℤ} (hn : n ≤ 2 ^ 53) (ht : -1074 ≤ t) :
    (if h : (shiftToTargetExponent .binary64 n t .exact).1.mantissa = 0 then
        UnpackedFloat.zero .positive
      else .finite .positive _ (shiftToTargetExponent .binary64 n t .exact).2
        (Nat.pos_of_ne_zero h)) = onGrid n t := by
  rcases Nat.lt_or_eq_of_le hn with hlt | rfl
  · simp only [shiftToTargetExponent_of_lt hlt ht, onGrid, if_neg hlt.ne]
    rcases Nat.eq_zero_or_pos n with hzero | hpos
    · rw [dif_pos hzero, dif_neg (by omega)]
    · rw [dif_neg hpos.ne', dif_pos hpos]
  · simp only [shiftToTargetExponent_carry ht]
    rfl

/-- What a number is rounded to before it is packed: the nearest point of its grid. -/
def IsRounded (q : ℚ) (u : UnpackedFloat) : Prop :=
  ∃ n : ℕ, IsNearestInt (q / 2 ^ gridExponent q) n ∧ u = onGrid n (gridExponent q)

theorem le_of_isNearestInt {n : ℕ} (h : IsNearestInt (q / 2 ^ gridExponent q) n) :
    n ≤ 2 ^ 53 := by
  have hbound := lt_grid q
  have habove := le_abs_self (((n : ℤ) : ℚ) - q / 2 ^ gridExponent q)
  have hnear := h.near
  rw [Int.cast_natCast] at habove hnear
  have hlt : (n : ℚ) < (2 ^ 53 + 1 : ℕ) := by
    push_cast
    linarith
  exact Nat.lt_succ_iff.mp (by exact_mod_cast hlt)

theorem isRounded_roundWithAccuracy {m : ℕ} {x : ℚ} {e : ℤ} {accuracy : Accuracy} (hq : 0 < q)
    (hx : Represents (.ofMantissaAndAccuracy m accuracy) x) (hvalue : x * 2 ^ e = q)
    (he : e ≤ gridExponent q) :
    IsRounded q (roundWithAccuracy .binary64 .positive m e accuracy) := by
  have hmantissa : (ExtendedMantissa.ofMantissaAndAccuracy m accuracy).mantissa = m := by
    unfold ExtendedMantissa.ofMantissaAndAccuracy
    split <;> rfl
  have hle := hx.le
  have hlt := hx.lt
  rw [hmantissa] at hle hlt
  have htarget := targetExponent_eq hq hle hlt hvalue he
  obtain ⟨shift, hshift⟩ : ∃ shift : ℕ, gridExponent q = e + shift :=
    ⟨(gridExponent q - e).toNat, by omega⟩
  have hshifted : x / 2 ^ shift = q / 2 ^ gridExponent q := by
    rw [hshift, ← hvalue, zpow_add₀ two_ne_zero, zpow_natCast, mul_comm x,
      mul_div_mul_left _ _ (zpow_ne_zero _ two_ne_zero)]
  have hnearest := (hx.shiftRight shift).isNearestInt
  rw [hshifted] at hnearest
  refine ⟨_, hnearest, ?_⟩
  have hfirst : shiftToTargetExponent .binary64 m e accuracy =
      (ExtendedMantissa.ofMantissaAndAccuracy m accuracy >>> shift, gridExponent q) := by
    have hcount : (e + (shift : ℤ) - e).toNat = shift := by omega
    unfold shiftToTargetExponent shiftToExponent
    dsimp only
    rw [htarget, hshift, hcount]
  rw [← onGrid_of_shift (le_of_isNearestInt hnearest) (le_gridExponent q)]
  unfold roundWithAccuracy
  rw [hfirst]

end Double

end BoardMill
