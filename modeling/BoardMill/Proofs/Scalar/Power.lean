import BoardMill.Decimal.Power
import BoardMill.Proofs.Scalar.Exact

/-! # Exact powers of ten

The order of the products in a power matters only to how it is rounded. In exact arithmetic the
power is what it is called.
-/

namespace BoardMill.Exact

variable {K : Type} [Field K] [LinearOrder K] [FloorRing K] [Analytic K]

theorem powerFrom_number (result base : K) (n : ℕ) :
    Scalar.powerFrom (number result : Exact K) (number base) n = number (result * base ^ n) := by
  -- The exponent is halved in every round, and the base is squared.
  induction n using Nat.strong_induction_on generalizing result base with
  | _ n ih =>
      have hlowest : (if n % 2 = 1 then number result * number base else number result : Exact K) =
          number (result * base ^ (n % 2)) := by
        rcases Nat.mod_two_eq_zero_or_one n with heven | hodd
        · rw [heven, if_neg zero_ne_one, pow_zero, mul_one]
        · rw [hodd, if_pos rfl, pow_one, number_mul]
      unfold Scalar.powerFrom
      dsimp only
      rw [hlowest]
      split
      next hlast => rw [Nat.mod_eq_of_lt (by omega : n < 2)]
      next hmore =>
        rw [number_mul, ih (n / 2) (by omega), mul_assoc, ← pow_two, ← pow_mul, ← pow_add,
          Nat.mod_add_div]

theorem tenPow_eq (n : ℕ) : (Scalar.tenPow (Int.ofNat n) : Exact K) = number (10 ^ n) := by
  have hsign : ¬ Int.ofNat n < 0 := Int.not_lt.mpr (Int.natCast_nonneg n)
  unfold Scalar.tenPow
  dsimp only
  rw [if_neg hsign, one_eq, ten_eq, powerFrom_number, one_mul]
  rfl

omit [FloorRing K] [Analytic K] in
/-- A number is scaled alike by powers of ten exactly if these are as far apart, unless it is
zero. -/
theorem scaled_eq_scaled_iff [IsStrictOrderedRing K] {n a b c d : ℕ} :
    (n * 10 ^ a / 10 ^ b : K) = n * 10 ^ c / 10 ^ d ↔ n = 0 ∨ a + d = c + b := by
  have hpower (e : ℕ) : (10 ^ e : K) ≠ 0 := pow_ne_zero _ (by norm_num)
  rw [div_eq_div_iff (hpower b) (hpower d)]
  norm_cast
  rw [mul_assoc, mul_assoc, ← pow_add, ← pow_add, mul_eq_mul_left_iff,
    (Nat.pow_right_injective (by decide : 2 ≤ 10)).eq_iff, or_comm]

end BoardMill.Exact
