import BoardMill.Proofs.Scalar.Double
import Mathlib.Algebra.Order.Field.Power
import Mathlib.Data.Rat.Floor
import Mathlib.Tactic.Linarith
import Mathlib.Tactic.Positivity
import Mathlib.Tactic.Ring

/-! # Integer parts of doubles

A finite double is a mantissa times a power of two. As all digits of the mantissa are used unless
the exponent is the least one, doubles that are ordered by exponent and mantissa are ordered by
what they are worth, and their integer parts are, too.
-/

namespace BoardMill.Double

open Float.Model (UnpackedFloat)
open Float.Model.UnpackedFloat (ExtendedMantissa unpackMantissa unpackExponent)

/-- The mantissa of a double has at most 53 digits. It has as many unless the exponent is the
least one. -/
structure Canonical (m : Nat) (e : Int) : Prop where
  bounded : m < 2 ^ 53
  least : -1074 ≤ e
  full : e = -1074 ∨ 2 ^ 52 ≤ m

theorem canonical_of_value {a : Float} {s : UnpackedFloat.Sign} {m : Nat} {e : Int} {hm : 0 < m}
    (h : value a = .finite s m e hm) : Canonical m e := by
  let mantissa := @unpackMantissa .binary64 a.toModel.toBits.toBitVec
  let exponent := @unpackExponent .binary64 a.toModel.toBits.toBitVec
  have hmantissa : mantissa.toNat < 2 ^ 52 := mantissa.isLt
  unfold value Float.Model.unpack UnpackedFloat.unpack at h
  dsimp only at h
  by_cases hspecial : exponent = -1#11
  · rw [if_pos hspecial] at h
    by_cases hmark : mantissa = 0#52
    · rw [if_pos hmark] at h
      cases h
    · rw [if_neg hmark] at h
      cases h
  · rw [if_neg hspecial] at h
    by_cases hleast : exponent = 0#11
    · rw [if_pos hleast] at h
      by_cases hnone : mantissa = 0#52
      · rw [dif_pos hnone] at h
        cases h
      · rw [dif_neg hnone] at h
        cases h
        have hexponent : (exponent.toNat : Int) - (1023 + 52) + 1 = -1074 := by
          rw [hleast]
          rfl
        exact ⟨hmantissa.trans (by decide), hexponent.ge, .inl hexponent⟩
    · rw [if_neg hleast] at h
      cases h
      have hexponent : 0 < exponent.toNat := by
        rw [Nat.pos_iff_ne_zero]
        exact fun h => hleast (BitVec.eq_of_toNat_eq h)
      have hfull : (1#1 ++ mantissa).toNat = 2 ^ 52 + mantissa.toNat := by
        rw [BitVec.toNat_append, ← Nat.shiftLeft_add_eq_or_of_lt hmantissa]
        rfl
      refine ⟨?_, ?_, .inr ?_⟩
      · change (1#1 ++ mantissa).toNat < _
        omega
      · change (-1074 : Int) ≤ exponent.toNat - (1023 + 52)
        omega
      · change _ ≤ (1#1 ++ mantissa).toNat
        omega

theorem mantissa_shiftRight (em : ExtendedMantissa) (n : Nat) :
    (em >>> n).mantissa = em.mantissa / 2 ^ n := by
  change (n.repeat ExtendedMantissa.shiftRightOne em).mantissa = _
  induction n with
  | zero => exact (Nat.div_one _).symm
  | succ n ih =>
      rw [Nat.repeat, ExtendedMantissa.shiftRightOne, ih, Nat.div_div_eq_div_mul, Nat.pow_succ]

/-- What a positive number is cut off to. -/
theorem roundToInt_positive (m : Nat) (e : Int) :
    UnpackedFloat.roundToInt .positive m e = ⌊(m : ℚ) * 2 ^ e⌋ := by
  have hround : UnpackedFloat.roundToInt .positive m e =
      ((m <<< (e - 0).toNat / 2 ^ (0 - (e - (e - 0).toNat)).toNat : Nat) : Int) :=
    congrArg Int.ofNat (mantissa_shiftRight _ _)
  rw [hround, sub_zero]
  rcases le_total 0 e with he | he
  · obtain ⟨k, rfl⟩ := Int.eq_ofNat_of_zero_le he
    rw [Int.toNat_natCast, sub_self, sub_self, Int.toNat_zero, pow_zero, Nat.div_one,
      Nat.shiftLeft_eq, zpow_natCast]
    exact_mod_cast (Int.floor_natCast (m * 2 ^ k)).symm
  · obtain ⟨k, hk⟩ := Int.eq_ofNat_of_zero_le (neg_nonneg.mpr he)
    obtain rfl : e = -k := by omega
    rw [Int.toNat_of_nonpos he, Nat.cast_zero, sub_zero, zero_sub, neg_neg, Int.toNat_natCast,
      Nat.shiftLeft_zero, zpow_neg, zpow_natCast, ← div_eq_mul_inv]
    exact_mod_cast (Rat.floor_natCast_div_natCast m (2 ^ k)).symm

theorem worth_le {m n : Nat} {e f : Int} (hm : Canonical m e) (hn : Canonical n f)
    (h : toLex (e, (m : Int)) ≤ toLex (f, (n : Int))) : (m : ℚ) * 2 ^ e ≤ n * 2 ^ f := by
  rcases Prod.Lex.toLex_le_toLex.mp h with hlt | ⟨heq, hle⟩
  · have hfull : (2 : ℚ) ^ 52 ≤ n := by
      rcases hn.full with hleast | hfull
      · have := hm.least
        dsimp only at hlt
        omega
      · exact_mod_cast hfull
    have hbounded : (m : ℚ) ≤ 2 ^ 52 * 2 := by
      have := hm.bounded
      norm_num
      exact_mod_cast (by omega : m ≤ 9007199254740992)
    calc (m : ℚ) * 2 ^ e ≤ 2 ^ 52 * 2 * 2 ^ e := by gcongr
      _ = 2 ^ 52 * 2 ^ (e + 1) := by rw [zpow_add_one₀ two_ne_zero]; ring
      _ ≤ n * 2 ^ f := by
        gcongr
        · exact one_le_two
        · exact hlt
  · have hexponent : e = f := heq
    have hmantissa : (m : Int) ≤ n := hle
    rw [hexponent]
    gcongr
    exact Int.ofNat_le.mp hmantissa

/-- The integer part of a double, zero if it is negative, and the greatest word if it is
infinite. -/
def whole (x : UnpackedFloat) : Nat := (x.toInt 0 (2 ^ 64 - 1)).toNat

theorem toNat_eq (a : Float) : Scalar.toNat a = min (whole (value a)) (2 ^ 64 - 1) := by
  change (UInt64.ofNatClamp (whole (value a))).toNat = _
  unfold UInt64.ofNatClamp
  split
  next h => exact (min_eq_left (Nat.le_pred_of_lt h)).symm
  next h => exact (min_eq_right ((Nat.pred_le _).trans (not_lt.mp h))).symm

theorem whole_finite_negative (m : Nat) (e : Int) (hm : 0 < m) :
    whole (.finite .negative m e hm) = 0 :=
  Int.toNat_of_nonpos (neg_nonpos.mpr (Int.natCast_nonneg _))

theorem whole_finite_le {m n : Nat} {e f : Int} (hm : 0 < m) (hn : 0 < n) (ha : Canonical m e)
    (hb : Canonical n f) (h : rank (.finite .positive m e hm) ≤ rank (.finite .positive n f hn)) :
    whole (.finite .positive m e hm) ≤ whole (.finite .positive n f hn) := by
  have hparts : toLex (e, (m : Int)) ≤ toLex (f, (n : Int)) := by
    rcases Prod.Lex.toLex_le_toLex.mp h with hlt | ⟨-, hle⟩
    · exact absurd hlt (lt_irrefl _)
    · exact hle
  change (UnpackedFloat.roundToInt .positive m e).toNat ≤
    (UnpackedFloat.roundToInt .positive n f).toNat
  rw [roundToInt_positive, roundToInt_positive]
  exact Int.toNat_le_toNat (Int.floor_le_floor (worth_le ha hb hparts))

/-- The integer part grows with the number. -/
theorem toNat_mono {a b : Float} (h : a ≤ b) : Scalar.toNat a ≤ Scalar.toNat b := by
  obtain ⟨ha, hb, hrank⟩ := le_iff.mp h
  rw [toNat_eq, toNat_eq]
  cases hfirst : value a with
  | notANumber => exact absurd hfirst ha
  | zero s => exact Nat.zero_le _
  | infinity s =>
      cases s with
      | negative => exact Nat.zero_le _
      | positive =>
          rw [hfirst] at ha hrank
          rw [value_of_infinity_le (le_iff.mpr ⟨ha, hb, hrank⟩)]
  | finite s m e hm =>
      cases s with
      | negative =>
          rw [whole_finite_negative]
          exact Nat.zero_le _
      | positive =>
          rw [hfirst] at hrank
          -- Whatever is not below a positive number is one or infinite.
          have hclass : (1 : Int) ≤ (ofLex (rank (value b))).1 := Prod.Lex.monotone_fst _ _ hrank
          cases hsecond : value b with
          | notANumber => exact absurd hsecond hb
          | zero t =>
              rw [hsecond] at hclass
              exact absurd (show (1 : Int) ≤ 0 from hclass) (by decide)
          | infinity t =>
              cases t with
              | negative =>
                  rw [hsecond] at hclass
                  exact absurd (show (1 : Int) ≤ -2 from hclass) (by decide)
              | positive => exact min_le_right _ _
          | finite t n f hn =>
              rw [hsecond] at hclass hrank
              cases t with
              | negative => exact absurd (show (1 : Int) ≤ -1 from hclass) (by decide)
              | positive =>
                  exact min_le_min_right _ (whole_finite_le hm hn (canonical_of_value hfirst)
                    (canonical_of_value hsecond) hrank)

end BoardMill.Double
