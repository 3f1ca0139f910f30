import BoardMill.Coordinate
import BoardMill.Proofs.Decimal.Zeros
import BoardMill.Proofs.Gerber.Placement
import BoardMill.Proofs.Scalar.Angle
import BoardMill.Proofs.Scalar.Power

/-! # Omitted zeros

Bare digits write a number that is divided by ten once for each decimal of the format. Zeros in
front of them have no effect, so that leading zeros may be left out. Where trailing zeros may, they
are filled in up to the digits of the format; zeros that are written beyond that multiply by ten.
-/

namespace BoardMill

open Decimal

/-- One, with a sign. -/
def unitOf {K : Type} [Field K] (negative : Bool) : K := if negative then -1 else 1

section Exact

variable {K : Type} [Field K]

theorem unitOf_ne_zero (negative : Bool) : (unitOf negative : K) ≠ 0 := by
  cases negative
  · exact one_ne_zero
  · exact neg_ne_zero.mpr one_ne_zero

variable [LinearOrder K] [FloorRing K] [Analytic K]

theorem withSign_number (negative : Bool) (x : K) :
    withSign negative (.number x : Exact K) = .number (unitOf negative * x) := by
  cases negative
  · exact congrArg Exact.number (one_mul x).symm
  · exact congrArg Exact.number (neg_one_mul x).symm

end Exact

namespace DigitCount

/-- What digits are worth that are aligned to the left against the integer part. -/
def leftAligned {K : Type} [Field K] (count : DigitCount) (negative : Bool) (digits : List Char) :
    K :=
  unitOf negative * (ofDigits digits * 10 ^ count.integer.toNat / 10 ^ digits.length)

section

variable {α : Type} [Scalar α] (count : DigitCount) {sign : Option Char} {digits : List Char}
  {n : ℕ}

theorem readFilled?_of_writes (hsign : ∀ c ∈ sign, isSign c = true) (h : Writes digits n)
    (fill : List Char → List Char) :
    (count.readFilled? fill (sign.toList ++ digits) : Option α) =
      count.value? (sign == some '-') (fill digits) := by
  have hpoint := h.point_not_mem_signed hsign
  unfold readFilled?
  rw [if_neg (by simpa using hpoint), h.splitSign_append hsign]
  dsimp only
  rw [if_neg (by simpa using ⟨h.ne_nil, h.digits⟩)]

variable {count} in
theorem value?_congr {negative : Bool} {other : List Char} (h : ofDigits digits = ofDigits other) :
    (count.value? negative digits : Option α) = count.value? negative other := by
  unfold value?
  rw [h]

theorem value?_eq_some_iff {negative : Bool} {v : α} :
    count.value? negative digits = some v ↔ ofDigits digits < 2 ^ 63 ∧
      withSign negative (Scalar.ofNat (ofDigits digits) /
        Scalar.tenPow (Int.ofNat count.decimal.toNat)) = v := by
  have hlimit : ofDigits digits ≤ maxInt64 ↔ ofDigits digits < 2 ^ 63 := Nat.lt_succ_iff.symm
  rw [← hlimit]
  exact Option.ite_none_right_eq_some.trans (and_congr_right fun _ => Option.some_inj)

end

variable {K : Type} [Field K] [LinearOrder K] [IsStrictOrderedRing K] [FloorRing K] [Analytic K]

theorem value?_number (count : DigitCount) (negative : Bool) {digits : List Char}
    (h : ofDigits digits < 2 ^ 63) :
    count.value? negative digits =
      some (.number (unitOf negative * (ofDigits digits / 10 ^ count.decimal.toNat)) : Exact K) := by
  have hpower : (10 ^ count.decimal.toNat : K) ≠ 0 := pow_ne_zero _ (by norm_num)
  refine count.value?_eq_some_iff.mpr ⟨h, ?_⟩
  rw [Exact.ofNat_eq, Exact.tenPow_eq, ← withSign_number, ← Exact.number_div hpower]

end DigitCount

namespace CoordinateFormat

/-- How many zeros are filled in behind digits. -/
def omitted (format : CoordinateFormat) (axis : Axis) (digits : List Char) : ℕ :=
  (format.count axis).total - digits.length

variable (format : CoordinateFormat) (axis : Axis)

theorem decode?_of_writes {α : Type} [Scalar α] {sign : Option Char}
    (hsign : ∀ c ∈ sign, isSign c = true) {digits : List Char} {n : ℕ} (h : Writes digits n) :
    (format.decode? axis (sign.toList ++ digits) : Option α) =
      (format.count axis).value? (sign == some '-') (format.fill axis digits) :=
  (format.count axis).readFilled?_of_writes hsign h _

theorem ofDigits_fill_leading (h : format.zeros = .leading) (digits : List Char) (k : ℕ) :
    ofDigits (format.fill axis (Decimal.zeros k ++ digits)) =
      ofDigits (format.fill axis digits) := by
  unfold fill
  rw [h]
  exact ofDigits_zeros_append k digits

section Trailing

variable {format} (h : format.zeros = .trailing) (digits : List Char)

include h

theorem fill_trailing :
    format.fill axis digits = digits ++ Decimal.zeros (format.omitted axis digits) := by
  unfold fill
  rw [h]
  rfl

theorem fill_append_zeros (k : ℕ) :
    format.fill axis (digits ++ Decimal.zeros k) =
      digits ++ Decimal.zeros (max k (format.omitted axis digits)) := by
  unfold fill
  rw [h]
  exact padRight_append_zeros _ digits k

theorem fill_append_zeros_of_le {k : ℕ} (hk : k ≤ format.omitted axis digits) :
    format.fill axis (digits ++ Decimal.zeros k) = format.fill axis digits := by
  rw [fill_append_zeros axis h, max_eq_right hk, fill_trailing axis h]

theorem ofDigits_fill_trailing :
    ofDigits (format.fill axis digits) = ofDigits digits * 10 ^ format.omitted axis digits := by
  rw [fill_trailing axis h, ofDigits_append_zeros]

/-- Each zero that would not be filled in multiplies by ten. -/
theorem ofDigits_fill_append_zeros (k : ℕ) :
    ofDigits (format.fill axis (digits ++ Decimal.zeros k)) =
      ofDigits (format.fill axis digits) * 10 ^ (k - format.omitted axis digits) := by
  rw [fill_append_zeros axis h, ofDigits_append_zeros, ofDigits_fill_trailing axis h, mul_assoc,
    ← pow_add]
  congr 2
  omega

theorem ofDigits_fill_append_zeros_lt {k bound : ℕ}
    (hfilled : ofDigits (format.fill axis digits) < bound)
    (hdigits : ofDigits (digits ++ Decimal.zeros k) < bound) :
    ofDigits (format.fill axis (digits ++ Decimal.zeros k)) < bound := by
  -- As many zeros stand behind the digits in the end as are written or filled in, if these are more.
  rcases le_total k (format.omitted axis digits) with hfits | hbeyond
  · rwa [fill_append_zeros_of_le axis h _ hfits]
  · rwa [fill_append_zeros axis h, max_eq_left hbeyond]

/-- Digits are worth what they are when aligned to the left exactly if, once they are filled, they
are as many as the counts of the format add up to, or if all of them are zeros. -/
theorem filled_eq_leftAligned_iff {K : Type} [Field K] [LinearOrder K] [IsStrictOrderedRing K]
    (negative : Bool) :
    unitOf negative * ((ofDigits (format.fill axis digits) : K) /
        10 ^ (format.count axis).decimal.toNat) =
      (format.count axis).leftAligned negative digits ↔
    ofDigits digits = 0 ∨ max (format.count axis).total digits.length =
      (format.count axis).integer.toNat + (format.count axis).decimal.toNat := by
  have hlength : format.omitted axis digits + digits.length =
      max (format.count axis).total digits.length := by
    unfold omitted
    omega
  rw [DigitCount.leftAligned, mul_right_inj' (unitOf_ne_zero negative),
    ofDigits_fill_trailing axis h, ← hlength]
  push_cast
  exact Exact.scaled_eq_scaled_iff

end Trailing

variable {α : Type} [Scalar α] {K : Type} [Field K] [LinearOrder K] [IsStrictOrderedRing K]
  [FloorRing K] [Analytic K]

/-- Zeros in front of digits make no difference where leading zeros may be left out. Where trailing
zeros may, those behind the digits make none as long as they would be filled in anyway; all others
count as digits. In exact arithmetic each of these multiplies by ten, and digits are aligned to the
left exactly if there are as many of them, after zeros are filled in, as the counts of the format
add up to, or if all of them are zeros. -/
theorem decode?_zeros {sign : Option Char} (hsign : ∀ c ∈ sign, isSign c = true)
    {digits : List Char} {n : ℕ} (hdigits : Writes digits n) {v : α}
    (hread : format.decode? axis (sign.toList ++ digits) = some v) :
    (format.zeros = .leading → ∀ k,
      format.decode? axis (sign.toList ++ (Decimal.zeros k ++ digits)) = some v) ∧
    (format.zeros = .trailing →
      (∀ k ≤ format.omitted axis digits,
        format.decode? axis (sign.toList ++ (digits ++ Decimal.zeros k)) = some v) ∧
      (∀ k, ofDigits (digits ++ Decimal.zeros k) < 2 ^ 63 →
        format.decode? axis (sign.toList ++ (digits ++ Decimal.zeros k)) =
          some (withSign (sign == some '-')
            (Scalar.ofNat (n * 10 ^ max k (format.omitted axis digits)) /
              Scalar.tenPow (Int.ofNat (format.count axis).decimal.toNat)) : α)) ∧
      ∃ x : K, format.decode? axis (sign.toList ++ digits) = some (Exact.number x) ∧
        (∀ k, ofDigits (digits ++ Decimal.zeros k) < 2 ^ 63 →
          format.decode? axis (sign.toList ++ (digits ++ Decimal.zeros k)) =
            some (Exact.number (x * 10 ^ (k - format.omitted axis digits)))) ∧
        (x = (format.count axis).leftAligned (sign == some '-') digits ↔
          n = 0 ∨ max (format.count axis).total digits.length =
            (format.count axis).integer.toNat + (format.count axis).decimal.toNat)) := by
  rw [decode?_of_writes _ _ hsign hdigits] at hread
  obtain ⟨hbound, -⟩ := (DigitCount.value?_eq_some_iff _).mp hread
  refine ⟨fun hleading k => ?_, fun htrailing => ⟨fun k hfits => ?_, fun k hk => ?_, ?_⟩⟩
  · rw [decode?_of_writes _ _ hsign (hdigits.zeros_append k),
      DigitCount.value?_congr (format.ofDigits_fill_leading axis hleading digits k)]
    exact hread
  · rw [decode?_of_writes _ _ hsign (hdigits.append_zeros k),
      fill_append_zeros_of_le axis htrailing _ hfits]
    exact hread
  · have hbelow := ofDigits_fill_append_zeros_lt axis htrailing digits hbound hk
    rw [decode?_of_writes _ _ hsign (hdigits.append_zeros k)]
    refine (DigitCount.value?_eq_some_iff _).mpr ⟨hbelow, ?_⟩
    rw [fill_append_zeros axis htrailing, ofDigits_append_zeros, hdigits.value]
  · refine ⟨_, (decode?_of_writes _ _ hsign hdigits).trans (DigitCount.value?_number _ _ hbound),
      fun k hk => ?_, ?_⟩
    · have hbelow := ofDigits_fill_append_zeros_lt axis htrailing digits hbound hk
      rw [decode?_of_writes _ _ hsign (hdigits.append_zeros k),
        DigitCount.value?_number _ _ hbelow, ofDigits_fill_append_zeros axis htrailing]
      congr 2
      push_cast
      ring
    · rw [filled_eq_leftAligned_iff axis htrailing, hdigits.value]

section Rational

attribute [local instance] Gerber.coarse

/-- With six digits in the format, two zeros behind four digits make no difference, and two more
multiply by a hundred. -/
theorem decode?_zeros_four :
    let format : CoordinateFormat := ⟨.trailing, ⟨2, 4⟩, ⟨2, 4⟩⟩
    (∀ c ∈ some '-', isSign c = true) ∧ Writes "0125".toList 125 ∧
      format.decode? .y "-0125".toList = some (.number (-5 / 4) : Exact ℚ) ∧
      format.decode? .y "-012500".toList = some (.number (-5 / 4) : Exact ℚ) ∧
      format.decode? .y "-01250000".toList = some (.number (-125) : Exact ℚ) := by
  intro format
  have hsign : ∀ c ∈ some '-', isSign c = true := by
    rintro c ⟨⟩
    rfl
  have hdigits : Writes "0125".toList 125 := ⟨by decide, List.all_eq_true.mp rfl, rfl⟩
  have hread : format.decode? .y "-0125".toList = some (.number (-5 / 4) : Exact ℚ) := by
    refine (format.decode?_of_writes .y hsign hdigits).trans ?_
    rw [DigitCount.value?_number _ _ (by decide)]
    change some (Exact.number (-1 * (((12500 : ℕ) : ℚ) / 10 ^ 4))) = _
    norm_num
  obtain ⟨hsame, -, x, hx, hscaled, -⟩ :=
    (format.decode?_zeros .y (K := ℚ) hsign hdigits hread).2 rfl
  have hvalue : x = -5 / 4 := Exact.number.inj (Option.some.inj (hx.symm.trans hread))
  refine ⟨hsign, hdigits, hread, hsame 2 (by decide), (hscaled 4 (by decide)).trans ?_⟩
  change some (Exact.number (x * 10 ^ 2)) = _
  rw [hvalue]
  norm_num

/-- A zero behind as many digits as the format has makes the coordinate ten times as great. -/
theorem decode?_shifted :
    let format : CoordinateFormat := ⟨.trailing, ⟨2, 4⟩, ⟨2, 4⟩⟩
    ofDigits ("150000".toList ++ Decimal.zeros 1) < 2 ^ 63 ∧
      format.decode? .x "150000".toList = some (.number 15 : Exact ℚ) ∧
      format.decode? .x ("150000".toList ++ Decimal.zeros 1) = some (.number 150 : Exact ℚ) ∧
      (format.decode? .x ("150000".toList ++ Decimal.zeros 1) : Option (Exact ℚ)) ≠
        format.decode? .x "150000".toList := by
  intro format
  have hsign : ∀ c ∈ (none : Option Char), isSign c = true := nofun
  have hdigits : Writes "150000".toList 150000 := ⟨by decide, List.all_eq_true.mp rfl, rfl⟩
  have hsix : format.decode? .x "150000".toList = some (.number 15 : Exact ℚ) := by
    refine (format.decode?_of_writes .x hsign hdigits).trans ?_
    rw [DigitCount.value?_number _ _ (by decide)]
    change some (Exact.number (1 * (((150000 : ℕ) : ℚ) / 10 ^ 4))) = _
    norm_num
  have hseven : format.decode? .x ("150000".toList ++ Decimal.zeros 1) =
      some (.number 150 : Exact ℚ) := by
    refine (format.decode?_of_writes .x hsign (hdigits.append_zeros 1)).trans ?_
    rw [DigitCount.value?_number _ _ (by decide)]
    change some (Exact.number (1 * (((1500000 : ℕ) : ℚ) / 10 ^ 4))) = _
    norm_num
  refine ⟨by decide, hsix, hseven, ?_⟩
  rw [hsix, hseven]
  simp

end Rational

end CoordinateFormat

end BoardMill
