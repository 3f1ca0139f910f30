import BoardMill.Proofs.Coordinate
import BoardMill.Proofs.Drill.Directives

/-! # Digit patterns

A unit line may show by zeros how many digits stand before and behind the implied point. The last
pattern counts for all coordinates up to the next unit line. Both counts are kept as bytes, so that
a pattern of more zeros than a byte counts is taken for a shorter one.
-/

namespace BoardMill.Drill

open Decimal
open Outcome

/-- The pattern that a unit line shows last. -/
def pattern? (line : List Char) : Option (List Char) :=
  (((line.splitOn ',').tail.map Text.trim).filter (·.contains '.')).getLast?

variable {counts next : DigitCount} {pattern : List Char}

theorem patternDigits?_zeros {p q : ℕ}
    (h : patternDigits? (zeros p ++ '.' :: zeros q) = .ok counts) :
    counts = ⟨UInt8.ofNat p, UInt8.ofNat q⟩ := by
  unfold patternDigits? at h
  rw [splitAtFirst?_append (point_not_mem isDigit_of_mem_zeros), Option.getD_some] at h
  split at h
  next => cases h
  next => cases h
  next whole fraction _ _ hparts =>
    cases h
    obtain ⟨rfl, rfl⟩ := Prod.mk.inj hparts
    rw [length_zeros, length_zeros]

/-- An option either shows a pattern or leaves the counts. -/
theorem patternDigits?_of_unitOption? {option : List Char}
    (h : unitOption? counts option = .ok next) :
    if (Text.trim option).contains '.' then patternDigits? (Text.trim option) = .ok next
    else next = counts := by
  unfold unitOption? at h
  dsimp only at h
  split at h
  next hzeros =>
    cases h
    rcases hzeros with heq | heq <;> rw [heq] <;> exact rfl
  next =>
    split at h
    next hpattern =>
      rwa [if_pos (Bool.and_eq_true_iff.mp hpattern).1]
    next => cases h

/-- The pattern that is shown last counts, and without one the counts before the options. -/
theorem patternDigits?_of_foldlM {options : List (List Char)}
    (h : options.foldlM unitOption? counts = .ok next) :
    ((options.map Text.trim).filter (·.contains '.')).getLast?.elim (.ok counts) patternDigits? =
      .ok next := by
  -- The last option shows the last pattern, or else leaves the counts to the options before it.
  induction options using List.reverseRecOn generalizing next with
  | nil => exact h
  | append_singleton front option ih =>
      obtain ⟨middle, last, hmiddle, hoption, hsame⟩ := exists_of_foldlM_split h
      cases hsame
      have hcounts := patternDigits?_of_unitOption? hoption
      rw [List.map_append, List.filter_append, List.getLast?_append]
      split at hcounts
      next hpoint =>
        rw [List.map_singleton, List.filter_cons, if_pos hpoint]
        exact hcounts
      next hpoint =>
        rw [List.map_singleton, List.filter_cons, if_neg hpoint]
        subst hcounts
        exact ih hmiddle

/-- Without a pattern, only inches come with counts of their own. -/
theorem patternDigits?_of_unitLine? {line : List Char} {units : Units}
    (h : unitLine? counts line = .ok (units, next)) :
    (pattern? line).elim (.ok (if units = .inches then ⟨2, 4⟩ else counts)) patternDigits? =
      .ok next := by
  unfold unitLine? at h
  unfold pattern?
  split at h
  next => cases h
  next name options hsplit =>
    obtain ⟨named, -, h⟩ := bind_eq_ok.mp h
    obtain ⟨digits, hdigits, h⟩ := bind_eq_ok.mp h
    cases h
    have hcounts := patternDigits?_of_foldlM hdigits
    rw [hsplit]
    cases units <;> exact hcounts

namespace Reading

variable {α : Type} [Scalar α] {r last : Reading α}

/-- A line that begins like a unit line is carried out as one. -/
theorem line_of_isUnitLine {text : List Char} (h : isUnitLine text = true) :
    r.line text = do
      let (units, digits) ← unitLine? r.digits text
      return { r with units, digits } := by
  -- The words that are looked for first do not begin like a unit line.
  have hother {word : String} (hword : isUnitLine word.toList = false) :
      String.ofList text ≠ word := by
    rintro rfl
    rw [String.toList_ofList, h] at hword
    cases hword
  have hidle : ¬ idleDirectives.contains (String.ofList text) = true := by
    have hall : ∀ word ∈ idleDirectives, isUnitLine word.toList = false := by decide
    exact fun hmem => hother (hall _ (List.contains_iff_mem.mp hmem)) rfl
  have hends : ¬ (String.ofList text = "M30" ∨ String.ofList text = "M00") :=
    not_or.mpr ⟨hother (by decide), hother (by decide)⟩
  unfold line
  dsimp only
  rw [if_neg hidle, if_neg hends, if_neg (hother (by decide)), if_neg (hother (by decide))]
  exact if_pos h

theorem digits_of_foldlM {lines : List (List Char)}
    (hlines : ∀ text ∈ lines, isUnitLine text = false)
    (h : lines.foldlM Reading.line r = .ok last) : last.digits = r.digits := by
  induction lines generalizing r with
  | nil =>
      cases h
      rfl
  | cons text rest ih =>
      rw [List.foldlM_cons] at h
      obtain ⟨next, hnext, hrest⟩ := bind_eq_ok.mp h
      obtain ⟨htext, hothers⟩ := List.forall_mem_cons.mp hlines
      rw [ih hothers hrest, (heeds_of_line hnext).digits, digitsBehind_of_not_unitLine htext]

/-- Up to the next unit line, the counts are the bytes of those that the last pattern shows. -/
theorem digits_of_pattern {line : List Char} {between : List (List Char)} {p q : ℕ}
    (hline : isUnitLine line = true) (hpattern : pattern? line = some (zeros p ++ '.' :: zeros q))
    (hbetween : ∀ text ∈ between, isUnitLine text = false)
    (hrun : (line :: between).foldlM Reading.line r = .ok last) :
    last.digits = ⟨UInt8.ofNat p, UInt8.ofNat q⟩ := by
  rw [List.foldlM_cons] at hrun
  obtain ⟨named, hnamed, hrest⟩ := bind_eq_ok.mp hrun
  rw [line_of_isUnitLine hline] at hnamed
  obtain ⟨⟨units, digits⟩, hunits, hnamed⟩ := bind_eq_ok.mp hnamed
  cases hnamed
  have hdigits := patternDigits?_of_unitLine? hunits
  rw [hpattern] at hdigits
  rw [digits_of_foldlM hbetween hrest]
  exact patternDigits?_zeros hdigits

end Reading

/-! ## Coordinates -/

section Coordinates

variable {α : Type} [Scalar α] {sign : Option Char} {digits : List Char} {n : ℕ}

theorem coordinate?_of_writes (hsign : ∀ c ∈ sign, isSign c = true) (h : Writes digits n)
    (counts : DigitCount) :
    (coordinate? counts (sign.toList ++ digits) : Option α) =
      counts.value? (sign == some '-') digits :=
  (counts.readFilled?_of_writes hsign h _).trans
    (DigitCount.value?_congr (ofDigits_padLeft counts.total digits))

end Coordinates

/-- Behind a pattern of `p` zeros, a point and `q` zeros, up to the next unit line, the counts and
their sum are what a byte keeps of `p`, `q` and `p + q`. Digits that write a number within a signed
64-bit integer are a coordinate: the number divided by ten as often as the byte kept of `q` says. In
exact arithmetic this is what the pattern shows if a byte holds `q`, and otherwise for zero only. -/
theorem Reading.coordinate?_of_pattern {α : Type} [Scalar α] {K : Type} [Field K] [LinearOrder K]
    [IsStrictOrderedRing K] [FloorRing K] [Analytic K] {r last : Reading α} {line : List Char}
    {between : List (List Char)} {p q : ℕ} (hline : isUnitLine line = true)
    (hpattern : pattern? line = some (zeros p ++ '.' :: zeros q))
    (hbetween : ∀ text ∈ between, isUnitLine text = false)
    (hrun : (line :: between).foldlM Reading.line r = .ok last) {sign : Option Char}
    (hsign : ∀ c ∈ sign, isSign c = true) {digits : List Char} {n : ℕ} (hdigits : Writes digits n)
    (hn : n < 2 ^ 63) :
    last.digits.integer.toNat = p % 256 ∧ last.digits.decimal.toNat = q % 256 ∧
    last.digits.total = (p + q) % 256 ∧
    coordinate? last.digits (sign.toList ++ digits) = some (withSign (sign == some '-')
      (Scalar.ofNat n / Scalar.tenPow (Int.ofNat (q % 256))) : α) ∧
    ∃ x : K, coordinate? last.digits (sign.toList ++ digits) = some (Exact.number x) ∧
      (x = unitOf (sign == some '-') * (n / 10 ^ q) ↔ q < 256 ∨ n = 0) := by
  have hcounts := digits_of_pattern hline hpattern hbetween hrun
  have hinteger : last.digits.integer.toNat = p % 256 := by rw [hcounts, UInt8.toNat_ofNat']
  have hdecimal : last.digits.decimal.toNat = q % 256 := by rw [hcounts, UInt8.toNat_ofNat']
  have hbound : ofDigits digits < 2 ^ 63 := hdigits.value ▸ hn
  refine ⟨hinteger, hdecimal, ?_, ?_, _, (coordinate?_of_writes hsign hdigits _).trans
    (DigitCount.value?_number _ _ hbound), ?_⟩
  · rw [DigitCount.total, UInt8.toNat_add, hinteger, hdecimal, ← Nat.add_mod]
  · refine (coordinate?_of_writes hsign hdigits _).trans
      ((DigitCount.value?_eq_some_iff _).mpr ⟨hbound, ?_⟩)
    rw [hdigits.value, hdecimal]
  · have hscaled := Exact.scaled_eq_scaled_iff (K := K) (n := n) (a := 0) (b := q % 256) (c := 0)
      (d := q)
    simp only [pow_zero, mul_one, zero_add] at hscaled
    rw [hdigits.value, hdecimal, mul_right_inj' (unitOf_ne_zero _), hscaled, or_comm, eq_comm,
      Nat.mod_eq_iff_lt (by decide)]

section Rational

attribute [local instance] Gerber.coarse

/-- With three digits behind the point, a coordinate of four is read in thousandths. -/
theorem Reading.coordinate?_of_pattern_thousandths :
    let line := "METRIC,TZ,000.000".toList
    let between := ["T1C0.8".toList, "T1".toList]
    isUnitLine line = true ∧ pattern? line = some (zeros 3 ++ '.' :: zeros 3) ∧
      (∀ text ∈ between, isUnitLine text = false) ∧ (∀ c ∈ some '-', isSign c = true) ∧
      Writes "1234".toList 1234 ∧ 1234 < 2 ^ 63 ∧
      ∃ last : Reading (Exact ℚ), (line :: between).foldlM Reading.line .start = .ok last ∧
        last.digits.total = 6 ∧
        coordinate? last.digits "-1234".toList = some (Exact.number (-617 / 500) : Exact ℚ) := by
  intro line between
  have hline : isUnitLine line = true := by decide
  have hpattern : pattern? line = some (zeros 3 ++ '.' :: zeros 3) := by decide +kernel
  have hbetween : ∀ text ∈ between, isUnitLine text = false := by decide
  have hsign : ∀ c ∈ some '-', isSign c = true := by
    rintro c ⟨⟩
    rfl
  have hdigits : Writes "1234".toList 1234 := ⟨by decide, List.all_eq_true.mp rfl, rfl⟩
  have hok : ((line :: between).foldlM Reading.line (.start : Reading (Exact ℚ))).isOk = true := by
    decide +kernel
  obtain ⟨last, hrun⟩ := isOk_iff.mp hok
  obtain ⟨-, -, htotal, -, x, hread, hvalue⟩ := Reading.coordinate?_of_pattern (K := ℚ) hline
    hpattern hbetween hrun hsign hdigits (by decide)
  refine ⟨hline, hpattern, hbetween, hsign, hdigits, by decide, last, hrun, htotal, ?_⟩
  refine hread.trans ?_
  rw [hvalue.mpr (.inl (by decide))]
  change some (Exact.number (-1 * ((1234 : ℕ) / 10 ^ 3 : ℚ))) = _
  norm_num

/-- Of a pattern with 256 zeros behind the point a byte keeps none: a coordinate of one digit is read
as a whole number. -/
theorem Reading.pattern_lost :
    let line := "METRIC,0.".toList ++ zeros 256
    isUnitLine line = true ∧ pattern? line = some (zeros 1 ++ '.' :: zeros 256) ∧
      ∃ last : Reading (Exact ℚ), Reading.line .start line = .ok last ∧
        last.digits = ⟨1, 0⟩ ∧
        coordinate? last.digits "1".toList = some (Exact.number 1 : Exact ℚ) ∧
        coordinate? last.digits "1".toList ≠ some (Exact.number (1 / 10 ^ 256) : Exact ℚ) := by
  intro line
  have hline : isUnitLine line = true := by decide
  have hpattern : pattern? line = some (zeros 1 ++ '.' :: zeros 256) := by decide +kernel
  have hok : (Reading.line (.start : Reading (Exact ℚ)) line).isOk = true := by decide +kernel
  obtain ⟨last, hlast⟩ := isOk_iff.mp hok
  have hrun : [line].foldlM Reading.line (.start : Reading (Exact ℚ)) = .ok last := by
    rw [List.foldlM_cons, hlast]
    rfl
  have hcounts : last.digits = ⟨1, 0⟩ :=
    (digits_of_pattern hline hpattern (List.forall_mem_nil _) hrun).trans (by decide)
  have hone : Writes "1".toList 1 := ⟨by decide, List.all_eq_true.mp rfl, rfl⟩
  have hread : coordinate? last.digits "1".toList = some (Exact.number 1 : Exact ℚ) := by
    have hsign : ∀ c ∈ (none : Option Char), isSign c = true := nofun
    rw [hcounts]
    refine (coordinate?_of_writes hsign hone _).trans ?_
    rw [DigitCount.value?_number _ _ (by decide)]
    change some (Exact.number (1 * ((1 : ℕ) / 10 ^ 0 : ℚ))) = _
    norm_num
  refine ⟨hline, hpattern, last, hlast, hcounts, hread, ?_⟩
  rw [hread]
  norm_num

end Rational

end BoardMill.Drill
