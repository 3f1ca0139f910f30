import BoardMill.Decimal.Reading
import BoardMill.Proofs.Decimal.Marks
import BoardMill.Proofs.Decimal.Plain
import BoardMill.Proofs.Decimal.Zeros
import Mathlib.Algebra.Order.Field.Rat
import Mathlib.Tactic.FieldSimp
import Mathlib.Tactic.Linarith
import Mathlib.Tactic.Positivity
import Mathlib.Tactic.Ring

/-! # What numbers with fixed places show

The digits of a decimal show a rational number. What a double shows with fixed places is the
multiple of the last place that is nearest to it, a half to the even one. It shows zero if it is
at most half of the last place, and doubles that show the same are at most one last place apart.
-/

namespace BoardMill

def signOf (negative : Bool) : ℚ := if negative then -1 else 1

/-- The number that a double is, unless it is infinite or none. -/
def Binary.value? : Binary → Option ℚ
  | finite negative mantissa exponent _ => some (signOf negative * (mantissa * 2 ^ exponent))
  | _ => none

namespace Decimal

/-- The number that a plain decimal shows. -/
def shown? (text : List Char) : Option ℚ :=
  let (negative, unsigned) := splitSign text
  (plainParts? unsigned).map fun (whole, fraction) =>
    signOf negative * (ofDigits (whole ++ fraction) / 10 ^ fraction.length)

/-- A multiple of the last place is nearest to a number, the even one of two that are equally
near. -/
def Rounds (places : ℕ) (value rounded : ℚ) : Prop :=
  ∃ n : ℤ, rounded = n / 10 ^ places ∧ 2 * |n - value * 10 ^ places| ≤ 1 ∧
    (2 * |n - value * 10 ^ places| = 1 → Even n)

namespace Rounds

variable {places : ℕ} {value rounded other : ℚ}

/-- A number is at most half of the last place away from its rounding. -/
theorem abs_sub_le (h : Rounds places value rounded) :
    |rounded - value| ≤ 1 / (2 * 10 ^ places) := by
  obtain ⟨n, rfl, hnear, -⟩ := h
  have hplace : (0 : ℚ) < 10 ^ places := by positivity
  rw [le_div_iff₀ (by positivity), ← abs_of_pos hplace, mul_left_comm, ← abs_mul]
  rwa [sub_mul, abs_of_pos hplace, div_mul_cancel₀ _ hplace.ne']

/-- A number is rounded to zero if it is at most half of the last place: a half goes to the even
multiple. -/
theorem eq_zero_iff (h : Rounds places value rounded) :
    rounded = 0 ↔ |value| ≤ 1 / (2 * 10 ^ places) := by
  constructor
  · rintro rfl
    simpa using h.abs_sub_le
  · intro hsmall
    obtain ⟨n, rfl, hnear, heven⟩ := h
    have hplace : (0 : ℚ) < 10 ^ places := by positivity
    have hscaled : 2 * |value * 10 ^ places| ≤ 1 := by
      rw [le_div_iff₀ (by positivity)] at hsmall
      rw [abs_mul, abs_of_pos hplace]
      linarith
    have htriangle : |(n : ℚ)| ≤ |n - value * 10 ^ places| + |value * 10 ^ places| := by
      simpa using abs_add_le (n - value * 10 ^ places) (value * 10 ^ places)
    have hn : n = 0 := by
      by_contra hne
      have hone : (1 : ℚ) ≤ |(n : ℚ)| := by exact_mod_cast Int.one_le_abs hne
      have hunit : |n| = 1 := by
        have hle : |(n : ℚ)| ≤ 1 := by linarith
        exact le_antisymm (by exact_mod_cast hle) (Int.one_le_abs hne)
      have heven := heven (by linarith)
      rcases abs_eq zero_le_one |>.mp hunit with rfl | rfl
      · exact absurd heven (by decide)
      · exact absurd heven (by decide)
    rw [hn, Int.cast_zero, zero_div]

theorem signed (h : Rounds places value rounded) (negative : Bool) :
    Rounds places (signOf negative * value) (signOf negative * rounded) := by
  cases negative with
  | false => simpa [signOf] using h
  | true =>
      obtain ⟨n, rfl, hnear, heven⟩ := h
      have habs : |(-n : ℤ) - -value * 10 ^ places| = |n - value * 10 ^ places| := by
        rw [← abs_neg]
        push_cast
        ring_nf
      refine ⟨-n, by simp [signOf, neg_div], ?_, ?_⟩
      all_goals
        rw [signOf, if_pos rfl, neg_one_mul, habs]
      exacts [hnear, fun hhalf => (heven hhalf).neg]

/-- Numbers of one rounding are at most one last place apart. -/
theorem abs_sub_le_of_same (h : Rounds places value rounded) (h' : Rounds places other rounded) :
    |value - other| ≤ 1 / 10 ^ places := by
  have hhalves : (1 : ℚ) / 10 ^ places = 1 / (2 * 10 ^ places) + 1 / (2 * 10 ^ places) := by
    field_simp
    norm_num
  calc
    |value - other| = |(rounded - other) - (rounded - value)| := by rw [sub_sub_sub_cancel_left]
    _ ≤ |rounded - other| + |rounded - value| := abs_sub _ _
    _ ≤ 1 / 10 ^ places := hhalves ▸ add_le_add h'.abs_sub_le h.abs_sub_le

end Rounds

/-! ## Rounding quotients -/

/-- The rounded quotient is nearest to the quotient, and even if it is a half away. -/
theorem roundHalfEven_spec (num : ℕ) {den : ℕ} (hden : 0 < den) :
    2 * |(roundHalfEven num den * den : ℤ) - num| ≤ den ∧
      (2 * |(roundHalfEven num den * den : ℤ) - num| = den → Even (roundHalfEven num den)) := by
  obtain ⟨q, r, hr, rfl⟩ : ∃ q r, r < den ∧ num = den * q + r :=
    ⟨num / den, num % den, Nat.mod_lt _ hden, (Nat.div_add_mod _ _).symm⟩
  have hdiv : (den * q + r) / den = q := by
    rw [Nat.mul_add_div hden, Nat.div_eq_of_lt hr, add_zero]
  have hmod : (den * q + r) % den = r := by
    rw [Nat.mul_add_mod, Nat.mod_eq_of_lt hr]
  have hbelow : (q * den : ℤ) - (den * q + r : ℕ) = -r := by push_cast; ring
  have habove : ((q + 1 : ℕ) * den : ℤ) - (den * q + r : ℕ) = den - r := by push_cast; ring
  unfold roundHalfEven
  dsimp only
  rw [hdiv, hmod]
  split
  next hless =>
    rw [hbelow, abs_neg, Nat.abs_cast]
    exact ⟨by omega, fun h => by omega⟩
  next hless =>
    split
    next hgreater =>
      rw [habove, abs_of_nonneg (by omega)]
      exact ⟨by omega, fun h => by omega⟩
    next hgreater =>
      rcases Nat.mod_two_eq_zero_or_one q with hq | hq
      · rw [hq, add_zero, hbelow, abs_neg, Nat.abs_cast]
        exact ⟨by omega, fun _ => Nat.even_iff.mpr hq⟩
      · rw [hq, habove, abs_of_nonneg (by omega)]
        exact ⟨by omega, fun _ => Nat.even_iff.mpr (by omega)⟩

theorem rounds_roundHalfEven (places num : ℕ) {den : ℕ} (hden : 0 < den) :
    Rounds places (num / den) (roundHalfEven (num * 10 ^ places) den / 10 ^ places) := by
  obtain ⟨hnear, heven⟩ := roundHalfEven_spec (num * 10 ^ places) hden
  have hpos : (0 : ℚ) < den := by exact_mod_cast hden
  generalize roundHalfEven (num * 10 ^ places) den = n at *
  have hscale : 2 * |(n : ℚ) - num / den * 10 ^ places| * den =
      (2 * |(n * den : ℤ) - (num * 10 ^ places : ℕ)| : ℤ) := by
    rw [mul_assoc, ← abs_of_pos hpos, ← abs_mul, abs_of_pos hpos, sub_mul, mul_right_comm,
      div_mul_cancel₀ _ hpos.ne']
    push_cast
    rfl
  refine ⟨n, by rw [Int.cast_natCast], ?_, fun hhalf => ?_⟩
  · rw [Int.cast_natCast, ← mul_le_mul_iff_of_pos_right hpos, hscale, one_mul]
    exact_mod_cast hnear
  · rw [Int.cast_natCast] at hhalf
    rw [hhalf, one_mul] at hscale
    exact_mod_cast heven (by exact_mod_cast hscale.symm)

theorem ratio_spec (mantissa : ℕ) (exponent : ℤ) :
    0 < (Binary.ratio mantissa exponent).2 ∧
      ((Binary.ratio mantissa exponent).1 : ℚ) / (Binary.ratio mantissa exponent).2 =
        mantissa * 2 ^ exponent := by
  unfold Binary.ratio
  split
  next hneg =>
    have hexponent : exponent = -(exponent.natAbs : ℤ) := by omega
    refine ⟨Nat.two_pow_pos _, ?_⟩
    change (mantissa : ℚ) / (2 ^ exponent.natAbs : ℕ) = _
    rw [hexponent, zpow_neg, zpow_natCast, Int.natAbs_neg, Int.natAbs_natCast, div_eq_mul_inv]
    push_cast
    rfl
  next hneg =>
    have hexponent : exponent = (exponent.natAbs : ℤ) := by omega
    refine ⟨Nat.one_pos, ?_⟩
    change ((mantissa <<< exponent.natAbs : ℕ) : ℚ) / (1 : ℕ) = _
    rw [hexponent, Nat.shiftLeft_eq, Int.natAbs_natCast, zpow_natCast]
    push_cast
    rw [div_one]

/-! ## Reading back -/

theorem isDigit_of_mem_padLeft {width units : ℕ} {c : Char}
    (h : c ∈ padLeft width (toDigits units)) : isDigit c = true := by
  rcases List.mem_append.mp h with hzero | hdigit
  · exact isDigit_of_mem_zeros c hzero
  · exact Nat.isDigit_of_mem_toDigits (by decide) (by decide) hdigit

/-- A count of last places is written with a digit at least before the point and as many behind it
as there are places. -/
theorem exists_digits_placeText (places units : ℕ) :
    ∃ whole fraction, placeText places units =
        whole ++ (if places = 0 then [] else '.' :: fraction) ∧
      whole ≠ [] ∧ (∀ c ∈ whole, isDigit c = true) ∧ (∀ c ∈ fraction, isDigit c = true) ∧
      ofDigits (whole ++ fraction) = units ∧ fraction.length = places := by
  let digits := padLeft (places + 1) (toDigits units)
  have hdigits : ∀ c ∈ digits, isDigit c = true := fun c hc => isDigit_of_mem_padLeft hc
  have hlength : places + 1 ≤ digits.length := by
    simp only [digits, padLeft, zeros, List.length_append, List.length_replicate]
    omega
  refine ⟨digits.take (digits.length - places), digits.drop (digits.length - places), rfl, ?_,
    fun c hc => hdigits c (List.mem_of_mem_take hc),
    fun c hc => hdigits c (List.mem_of_mem_drop hc), ?_, ?_⟩
  · rw [← List.length_pos_iff, List.length_take]
    omega
  · rw [List.take_append_drop]
    exact (ofDigits_padLeft _ _).trans Nat.ofDigitChars_ten_toDigits
  · rw [List.length_drop]
    omega

theorem shown?_placeText (negative : Bool) (places units : ℕ) :
    shown? (signed negative (placeText places units)) =
      some (signOf negative * (units / 10 ^ places)) := by
  obtain ⟨whole, fraction, htext, hne, hwhole, hfraction, hvalue, hplaces⟩ :=
    exists_digits_placeText places units
  have hparts : plainParts? (placeText places units) = some (whole, fraction) := by
    refine plainParts?_eq_some ?_ (fun hnil => hne hnil.1) hwhole hfraction
    rw [htext]
    split
    next hzero =>
      rw [List.append_nil, splitAtFirst?_eq_none (point_not_mem hwhole), Option.getD_none,
        List.eq_nil_of_length_eq_zero (hplaces.trans hzero)]
    next => rw [splitAtFirst?_append (point_not_mem hwhole), Option.getD_some]
  have hsign : splitSign (signed negative (placeText places units)) =
      (negative, placeText places units) := by
    cases negative with
    | true => rfl
    | false =>
        obtain ⟨c, rest, rfl⟩ := List.exists_cons_of_ne_nil hne
        change splitSign (placeText places units) = _
        rw [htext]
        exact splitSign_of_isDigit _ (hwhole c List.mem_cons_self)
  rw [shown?, hsign]
  dsimp only
  rw [hparts, Option.map_some, hvalue, hplaces]

/-- A double shows the multiple of the last place nearest to it, if it is a number. -/
theorem shown?_fixedText (places : ℕ) (x : Float) :
    match (Binary.ofFloat x).value? with
    | some value => ∃ rounded, shown? (fixedText places x).toList = some rounded ∧
        Rounds places value rounded
    | none => shown? (fixedText places x).toList = none := by
  rw [fixedText, String.toList_ofList]
  cases Binary.ofFloat x with
  | notANumber => rfl
  | infinite negative => cases negative <;> rfl
  | finite negative m e edge =>
      obtain ⟨hden, hratio⟩ := ratio_spec m e
      refine ⟨_, shown?_placeText negative places _, ?_⟩
      have hrounds := rounds_roundHalfEven places (Binary.ratio m e).1 hden
      rw [hratio] at hrounds
      exact hrounds.signed negative

/-- A double shows zero if it is a number of at most half of the last place. -/
theorem shown?_fixedText_eq_zero_iff (places : ℕ) (x : Float) :
    shown? (fixedText places x).toList = some 0 ↔
      ∃ value, (Binary.ofFloat x).value? = some value ∧ |value| ≤ 1 / (2 * 10 ^ places) := by
  have hshown := shown?_fixedText places x
  cases hvalue : (Binary.ofFloat x).value? with
  | none =>
      rw [hvalue] at hshown
      simp [hshown]
  | some value =>
      rw [hvalue] at hshown
      obtain ⟨rounded, htext, hrounds⟩ := hshown
      simp [htext, hrounds.eq_zero_iff]

/-- Doubles that show the same number are at most one last place apart. -/
theorem exists_near_of_shown? {places : ℕ} {x y : Float} {shown : ℚ}
    (hx : shown? (fixedText places x).toList = some shown)
    (hy : shown? (fixedText places y).toList = some shown) :
    ∃ v w, (Binary.ofFloat x).value? = some v ∧ (Binary.ofFloat y).value? = some w ∧
      |v - w| ≤ 1 / 10 ^ places := by
  have hrounds {z : Float} (hz : shown? (fixedText places z).toList = some shown) :
      ∃ v, (Binary.ofFloat z).value? = some v ∧ Rounds places v shown := by
    have hshown := shown?_fixedText places z
    rw [hz] at hshown
    cases hvalue : (Binary.ofFloat z).value? with
    | none =>
        rw [hvalue] at hshown
        cases hshown
    | some v =>
        rw [hvalue] at hshown
        obtain ⟨rounded, heq, hv⟩ := hshown
        cases heq
        exact ⟨v, rfl, hv⟩
  obtain ⟨v, hv, hvrounds⟩ := hrounds hx
  obtain ⟨w, hw, hwrounds⟩ := hrounds hy
  exact ⟨v, w, hv, hw, hvrounds.abs_sub_le_of_same hwrounds⟩

end Decimal

end BoardMill
