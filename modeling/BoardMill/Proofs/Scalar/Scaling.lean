import BoardMill.Proofs.Scalar.Exact

/-! # Exact numbers under a factor

A positive factor leaves the infinities, and what is not a number, as they are. So it goes through
sums, quotients and the order of exact numbers, whether they are finite or not.
-/

namespace BoardMill.Exact

variable {K : Type} [Field K] [LinearOrder K] [FloorRing K] [Analytic K] {c : K}

theorem above_mul_number (hc : 0 < c) : (above * number c : Exact K) = above :=
  congrArg (fun s => ofSign (1 * s)) (sign_pos hc)

theorem below_mul_number (hc : 0 < c) : (below * number c : Exact K) = below :=
  congrArg (fun s => ofSign (-1 * s)) (sign_pos hc)

theorem undefined_mul_number : (undefined * number c : Exact K) = undefined := rfl

theorem add_mul_number (hc : 0 < c) (a b : Exact K) :
    (a + b) * number c = a * number c + b * number c := by
  cases a <;> cases b <;> simp only [above_mul_number hc, below_mul_number hc,
    undefined_mul_number, number_mul, number_add, add_mul]
  all_goals first | exact above_mul_number hc | exact below_mul_number hc | rfl

theorem neg_mul_number (hc : 0 < c) (a : Exact K) : -a * number c = -(a * number c) := by
  cases a <;> simp only [above_mul_number hc, below_mul_number hc, undefined_mul_number,
    number_mul, neg_number, neg_mul]
  all_goals first | exact above_mul_number hc | exact below_mul_number hc | rfl

theorem sub_mul_number (hc : 0 < c) (a b : Exact K) :
    (a - b) * number c = a * number c - b * number c := by
  change (a + -b) * number c = a * number c + -(b * number c)
  rw [add_mul_number hc, neg_mul_number hc]

theorem mul_number_one (a : Exact K) : a * number 1 = a := by
  have hone : (0 : K) < 1 := one_pos
  cases a with
  | number x => rw [number_mul, mul_one]
  | above => exact above_mul_number hone
  | below => exact below_mul_number hone
  | undefined => rfl

theorem div_mul_number (hc : 0 < c) {x : K} (hx : 0 < x) (a : Exact K) :
    a / number x * number c = a * number c / number x := by
  cases a with
  | number y =>
      rw [number_mul, number_div hx.ne', number_div hx.ne', number_mul, div_mul_eq_mul_div]
  | above =>
      have hdiv : (above / number x : Exact K) = above := if_pos hx.le
      rw [above_mul_number hc, hdiv, above_mul_number hc]
  | below =>
      have hdiv : (below / number x : Exact K) = below := if_pos hx.le
      rw [below_mul_number hc, hdiv, below_mul_number hc]
  | undefined => rfl

variable [IsStrictOrderedRing K]

/-- A positive factor keeps the order. -/
theorem ble_mul_number (hc : 0 < c) (a b : Exact K) :
    (a * number c).ble (b * number c) = a.ble b := by
  cases a <;> cases b <;> simp only [above_mul_number hc, below_mul_number hc,
    undefined_mul_number, number_mul, Exact.ble, mul_le_mul_iff_of_pos_right hc]

theorem min_mul_number (hc : 0 < c) (a b : Exact K) :
    Scalar.min (a * number c) (b * number c) = Scalar.min a b * number c := by
  have hlt : b * number c < a * number c ↔ b < a := by
    change (_ && _) = true ↔ (_ && _) = true
    rw [ble_mul_number hc, ble_mul_number hc]
  simp only [Scalar.min, isNaN_eq, ble_mul_number hc, hlt, apply_ite (· * number c)]

end BoardMill.Exact
