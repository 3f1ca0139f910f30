import BoardMill.Proofs.Scalar.Exact
import Mathlib.Algebra.Order.Group.Pointwise.Interval
import Mathlib.Algebra.Ring.Periodic
import Mathlib.Tactic.Ring

/-! # Functions of angles by quarter turns

Of sine and cosine, boxes need little: that they repeat after a full turn, and that each of them
rises or falls throughout every quarter turn. Between two angles, every angle lies between two
neighbors among the two and the quarter turns between them, and a function that rises or falls
throughout quarter turns has a value there that lies between those at the neighbors.
-/

namespace BoardMill

variable {K : Type} [Field K] [LinearOrder K] [IsStrictOrderedRing K]

/-- The angles of a quarter turn, counted from the first axis in right angles. -/
def quarter (right : K) (n : ℤ) : Set K := Set.Icc (n * right) ((n + 1) * right)

/-- A function of angles that repeats after a full turn and rises or falls throughout every
quarter turn. -/
structure IsQuartered (pi : K) (f : K → K) : Prop where
  periodic : Function.Periodic f (2 * pi)
  monotone : ∀ n : ℤ, MonotoneOn f (quarter (pi / 2) n) ∨ AntitoneOn f (quarter (pi / 2) n)

/-- One of two angles, or a quarter turn between them. -/
inductive IsKnot (pi a b : K) : K → Prop
  | start : IsKnot pi a b a
  | finish : IsKnot pi a b b
  | axis (n : ℤ) (h : n * (pi / 2) ∈ Set.uIcc a b) : IsKnot pi a b (n * (pi / 2))

omit [IsStrictOrderedRing K] in
theorem IsKnot.swap {pi a b x : K} (h : IsKnot pi a b x) : IsKnot pi b a x := by
  cases h with
  | start => exact .finish
  | finish => exact .start
  | axis n hn => exact .axis n (Set.uIcc_comm a b ▸ hn)

/-- Between two angles, every angle has a knot on either side in the same quarter turn. -/
theorem exists_knots [FloorRing K] {pi a b t : K} (hpi : 0 < pi) (ht : t ∈ Set.uIcc a b) :
    ∃ n l r, IsKnot pi a b l ∧ IsKnot pi a b r ∧ l ∈ quarter (pi / 2) n ∧
      r ∈ quarter (pi / 2) n ∧ t ∈ Set.Icc l r := by
  wlog hab : a ≤ b generalizing a b
  · obtain ⟨n, l, r, hl, hr, hrest⟩ := this (Set.uIcc_comm a b ▸ ht) (le_of_not_ge hab)
    exact ⟨n, l, r, hl.swap, hr.swap, hrest⟩
  have hquarter : 0 < pi / 2 := half_pos hpi
  rw [Set.uIcc_of_le hab] at ht
  obtain ⟨hat, htb⟩ := ht
  let n : ℤ := ⌊t / (pi / 2)⌋
  have hbelow : n * (pi / 2) ≤ t := (le_div_iff₀ hquarter).mp (Int.floor_le _)
  have habove : t < (n + 1) * (pi / 2) := (div_lt_iff₀ hquarter).mp (Int.lt_floor_add_one _)
  refine ⟨n, max a (n * (pi / 2)), min b ((n + 1) * (pi / 2)), ?_, ?_,
    ⟨le_max_right _ _, (max_le hat hbelow).trans habove.le⟩,
    ⟨hbelow.trans (le_min htb habove.le), min_le_right _ _⟩, max_le hat hbelow,
    le_min htb habove.le⟩
  · rcases max_choice a (n * (pi / 2)) with hmax | hmax
    · rw [hmax]
      exact .start
    · rw [hmax]
      exact .axis n (Set.uIcc_of_le hab ▸ ⟨max_eq_right_iff.mp hmax, hbelow.trans htb⟩)
  · rcases min_choice b ((n + 1) * (pi / 2)) with hmin | hmin
    · rw [hmin]
      exact .finish
    · rw [hmin]
      have hnext : ((n + 1 : ℤ) : K) * (pi / 2) ∈ Set.uIcc a b := by
        rw [Set.uIcc_of_le hab]
        push_cast
        exact ⟨hat.trans habove.le, min_eq_right_iff.mp hmin⟩
      have hknot := IsKnot.axis (n + 1) hnext
      push_cast at hknot
      exact hknot

namespace IsQuartered

variable {pi : K} {f : K → K}

omit [IsStrictOrderedRing K] in
/-- Within a quarter turn values lie between each other as the angles do. -/
theorem mem_uIcc (h : IsQuartered pi f) {n : ℤ} {l r t : K} (hl : l ∈ quarter (pi / 2) n)
    (hr : r ∈ quarter (pi / 2) n) (ht : t ∈ Set.Icc l r) : f t ∈ Set.uIcc (f l) (f r) := by
  have hsub : Set.uIcc l r ⊆ quarter (pi / 2) n := Set.uIcc_subset_Icc hl hr
  rcases h.monotone n with hrise | hfall
  · exact (hrise.mono hsub).mapsTo_uIcc (Set.Icc_subset_uIcc ht)
  · exact (hfall.mono hsub).mapsTo_uIcc (Set.Icc_subset_uIcc ht)

omit [IsStrictOrderedRing K] in
theorem apply_add_turns (h : IsQuartered pi f) (x : K) (n : ℤ) : f (x + n * (2 * pi)) = f x :=
  h.periodic.int_mul n x

end IsQuartered

omit [LinearOrder K] [IsStrictOrderedRing K] in
/-- Every quarter turn is one of the four of a full turn, up to full turns. -/
theorem exists_quarter_add_turns [CharZero K] (pi : K) (n : ℤ) :
    ∃ (k : Fin 4) (m : ℤ), (k * pi / 2 : K) + m * (2 * pi) = n * (pi / 2) := by
  obtain ⟨k, hk⟩ := Int.eq_ofNat_of_zero_le (Int.emod_nonneg n (by decide : (4 : ℤ) ≠ 0))
  have hlt : k < 4 := by
    have := Int.emod_lt_of_pos n (by decide : (0 : ℤ) < 4)
    omega
  refine ⟨⟨k, hlt⟩, n / 4, ?_⟩
  have hn : (n : K) = k + 4 * (n / 4 : ℤ) := by
    have := Int.emod_add_mul_ediv n 4
    rw [hk] at this
    exact_mod_cast this.symm
  rw [hn]
  ring

/-- What is assumed of half a turn and of sine and cosine. -/
structure Analytic.Quartered (K : Type) [Field K] [LinearOrder K] [Analytic K] : Prop where
  pi_pos : 0 < (Analytic.pi : K)
  sin : IsQuartered Analytic.pi (Analytic.sin : K → K)
  cos : IsQuartered Analytic.pi (Analytic.cos : K → K)

end BoardMill
