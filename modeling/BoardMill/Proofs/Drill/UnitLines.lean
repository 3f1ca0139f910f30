import BoardMill.Proofs.Drill.Patterns

/-! # What a unit line leaves of the lines above it

Whether a unit line is accepted, and which units it names, does not hang on the lines above it. The
digit counts behind it are its own if it shows a pattern or names inches. A line for millimetres
without a pattern has none, and leaves those of the lines above it in force.
-/

namespace BoardMill.Drill

open Decimal
open Outcome

/-- The digit counts that a line gives itself: those of its last pattern, or else those of inches. -/
def givenDigits? (line : List Char) : Option DigitCount :=
  if isUnitLine line then
    match pattern? line with
    | some pattern => (patternDigits? pattern).toOption
    | none => if units? line = some .inches then some ⟨2, 4⟩ else none
  else none

variable {counts next : DigitCount} {line : List Char} {units : Units}

/-! ## One unit line -/

theorem exists_unitOption? {option : List Char} (h : unitOption? counts option = .ok next)
    (others : DigitCount) : ∃ given, unitOption? others option = .ok given := by
  unfold unitOption? at h ⊢
  dsimp only at h ⊢
  split
  next => exact ⟨others, rfl⟩
  next hzeros =>
    rw [if_neg hzeros] at h
    exact ⟨next, h⟩

/-- A unit line is accepted whatever the counts are, with the same units. -/
theorem exists_unitLine? (h : unitLine? counts line = .ok (units, next)) (others : DigitCount) :
    ∃ given, unitLine? others line = .ok (units, given) := by
  unfold unitLine? at h ⊢
  split at h
  next => cases h
  next name options hsplit =>
    obtain ⟨named, hunits, h⟩ := bind_eq_ok.mp h
    obtain ⟨digits, hdigits, h⟩ := bind_eq_ok.mp h
    cases h
    have hstep : ∀ s t option next, True → unitOption? s option = .ok next →
        ∃ behind, unitOption? t option = .ok behind ∧ True := fun s t option next _ h =>
      (exists_unitOption? h t).imp fun _ hgiven => ⟨hgiven, trivial⟩
    obtain ⟨given, hgiven, -⟩ := exists_foldlM_of_rel hstep trivial hdigits
    exact ⟨given, bind_eq_ok.mpr ⟨units, hunits, bind_eq_ok.mpr ⟨given, hgiven, rfl⟩⟩⟩

theorem givenDigits?_of_pattern (hline : isUnitLine line = true) {pattern : List Char}
    (hpattern : pattern? line = some pattern) :
    givenDigits? line = (patternDigits? pattern).toOption := by
  rw [givenDigits?, if_pos hline, hpattern]

theorem givenDigits?_of_no_pattern (hline : isUnitLine line = true)
    (hpattern : pattern? line = none) :
    givenDigits? line = if units? line = some .inches then some ⟨2, 4⟩ else none := by
  rw [givenDigits?, if_pos hline, hpattern]

/-- Behind a unit line the counts are its own, or else those before it. -/
theorem digits_of_unitLine? (hline : isUnitLine line = true)
    (h : unitLine? counts line = .ok (units, next)) : next = (givenDigits? line).getD counts := by
  have hdigits := patternDigits?_of_unitLine? h
  cases hpattern : pattern? line with
  | some pattern =>
      rw [hpattern, Option.elim_some] at hdigits
      rw [givenDigits?_of_pattern hline hpattern, hdigits]
      rfl
  | none =>
      rw [hpattern, Option.elim_none] at hdigits
      cases hdigits
      rw [givenDigits?_of_no_pattern hline hpattern, units?_of_unitLine? h]
      cases units <;> rfl

/-- Only lines for millimetres without a pattern have no counts of their own. -/
theorem givenDigits?_eq_none_iff (hline : isUnitLine line = true)
    (h : unitLine? counts line = .ok (units, next)) :
    givenDigits? line = none ↔ units = .millimeters ∧ pattern? line = none := by
  have hdigits := patternDigits?_of_unitLine? h
  cases hpattern : pattern? line with
  | some pattern =>
      rw [hpattern, Option.elim_some] at hdigits
      rw [givenDigits?_of_pattern hline hpattern, hdigits]
      exact iff_of_false (Option.some_ne_none _) fun h => Option.some_ne_none _ h.2
  | none =>
      rw [givenDigits?_of_no_pattern hline hpattern, units?_of_unitLine? h]
      cases units <;> simp

/-! ## Lines above and below -/

namespace Reading

variable {α : Type} [Scalar α] {r other next last : Reading α} {text : List Char}
  {lines : List (List Char)}

theorem digits_of_line (h : r.line text = .ok next) :
    next.digits = (givenDigits? text).getD r.digits := by
  cases hline : isUnitLine text with
  | false =>
      rw [(heeds_of_line h).digits, digitsBehind_of_not_unitLine hline, givenDigits?, hline]
      rfl
  | true =>
      rw [line_of_isUnitLine hline] at h
      obtain ⟨⟨units, digits⟩, hunits, h⟩ := bind_eq_ok.mp h
      cases h
      exact digits_of_unitLine? hline hunits

/-- The counts in force are those that were given last. -/
theorem digits_of_foldlM_start (h : lines.foldlM Reading.line (.start : Reading α) = .ok r) :
    r.digits = (lines.filterMap givenDigits?).getLast?.getD ⟨3, 3⟩ := by
  induction lines using List.reverseRecOn generalizing r with
  | nil =>
      cases h
      rfl
  | append_singleton front text ih =>
      obtain ⟨middle, last, hmiddle, hlast, hsame⟩ := exists_of_foldlM_split h
      cases hsame
      rw [digits_of_line hlast, ih hmiddle, List.filterMap_append, List.getLast?_append]
      cases hgiven : givenDigits? text <;> simp [hgiven]

/-- Whether a line comes through hangs on the counts only. -/
theorem exists_line_of_digits_eq (hdigits : other.digits = r.digits)
    (h : r.line text = .ok next) : ∃ behind, other.line text = .ok behind := by
  unfold line at h ⊢
  dsimp only at h ⊢
  split at h
  next hidle => exact ⟨other, if_pos hidle⟩
  next hidle =>
  rw [if_neg hidle]
  split at h
  next hends => exact ⟨{ other with ended := true }, if_pos hends⟩
  next hends =>
  rw [if_neg hends]
  split at h
  next hmetric => exact ⟨{ other with units := .millimeters }, if_pos hmetric⟩
  next hmetric =>
  rw [if_neg hmetric]
  split at h
  next hinch => exact ⟨{ other with units := .inches }, if_pos hinch⟩
  next hinch =>
  rw [if_neg hinch]
  split at h
  next hline =>
    rw [if_pos hline, hdigits]
    obtain ⟨named, hnamed, -⟩ := bind_eq_ok.mp h
    exact ⟨_, bind_eq_ok.mpr ⟨named, hnamed, rfl⟩⟩
  next hline =>
  rw [if_neg hline]
  split at h
  next rest =>
    unfold toolLine at h ⊢
    split at h
    next => exact ⟨_, rfl⟩
    next =>
      split at h
      next => exact ⟨_, rfl⟩
      next => cases h
  next rest =>
    unfold holeLine at h ⊢
    rw [hdigits]
    split at h
    next => exact ⟨_, rfl⟩
    next => cases h
  next => cases h

/-- Two readings went on to the same counts, and added the same steps. -/
structure AddAlike (r other last behind : Reading α) : Prop where
  digits : behind.digits = last.digits
  steps : ∃ added, last.steps.toList = r.steps.toList ++ added ∧
    behind.steps.toList = other.steps.toList ++ added

/-- Lines are read alike from readings with the same counts. -/
theorem exists_addAlike (hdigits : other.digits = r.digits)
    (h : lines.foldlM Reading.line r = .ok last) :
    ∃ behind, lines.foldlM Reading.line other = .ok behind ∧ r.AddAlike other last behind := by
  refine exists_foldlM_of_rel (R := r.AddAlike other) ?_ ⟨hdigits, [], by simp, by simp⟩ h
  intro middle alike text next halike hnext
  obtain ⟨behind, hbehind⟩ := exists_line_of_digits_eq halike.digits hnext
  obtain ⟨added, hsteps, hother⟩ := halike.steps
  have hheeds := heeds_of_line hnext
  have hbeside := heeds_of_line hbehind
  refine ⟨behind, hbehind, ?_, added ++ (step? middle.digits text).toList, ?_, ?_⟩
  · rw [hbeside.digits, hheeds.digits, halike.digits]
  · rw [hheeds.steps, hsteps, List.append_assoc]
  · rw [hbeside.steps, hother, halike.digits, List.append_assoc]

/-- A unit line that is accepted behind some lines is accepted behind all others, and names the same
units. The counts behind it are the same exactly if it gives counts of its own or those before it are
the same; and then all lines below it are read alike. It gives none only for millimetres without a
pattern. The counts in force behind directives are therefore those given last. -/
theorem unit_lines_give_digits :
    (∀ (r other next : Reading α) (line : List Char), isUnitLine line = true →
      r.line line = .ok next →
      (givenDigits? line = none ↔ next.units = .millimeters ∧ pattern? line = none) ∧
      next.digits = (givenDigits? line).getD r.digits ∧
      ∃ behind, other.line line = .ok behind ∧ behind.units = next.units ∧
        (behind.digits = next.digits ↔
          (givenDigits? line).isSome ∨ other.digits = r.digits) ∧
        (behind.digits = next.digits → ∀ (lines : List (List Char)) (last : Reading α),
          lines.foldlM Reading.line next = .ok last →
          ∃ later, lines.foldlM Reading.line behind = .ok later ∧
            next.AddAlike behind last later)) ∧
    ∀ (lines : List (List Char)) (last : Reading α),
      lines.foldlM Reading.line .start = .ok last →
        last.digits = (lines.filterMap givenDigits?).getLast?.getD ⟨3, 3⟩ := by
  refine ⟨fun r other next line hline h => ?_, fun lines last => digits_of_foldlM_start⟩
  have hnext := digits_of_line h
  have hsame := h
  rw [line_of_isUnitLine hline] at h
  obtain ⟨⟨units, digits⟩, hunits, hresult⟩ := bind_eq_ok.mp h
  cases hresult
  obtain ⟨given, hgiven⟩ := exists_unitLine? hunits other.digits
  have hbehind : other.line line = .ok { other with units, digits := given } := by
    rw [line_of_isUnitLine hline]
    exact bind_eq_ok.mpr ⟨(units, given), hgiven, rfl⟩
  refine ⟨givenDigits?_eq_none_iff hline hunits, hnext, _, hbehind, rfl, ?_,
    fun hdigits lines last hlast => exists_addAlike hdigits hlast⟩
  rw [digits_of_line hbehind, hnext]
  cases givenDigits? line <;> simp

section Rational

attribute [local instance] Gerber.coarse

/-- A line for millimetres with a pattern is read alike at the beginning and behind inches, and so is
what stands below it. -/
theorem unit_lines_give_digits_pattern :
    let line := "METRIC,TZ,000.00".toList
    let below := ["T1C0.8".toList, "T1".toList, "X1234Y5678".toList]
    let start : Reading (Exact ℚ) := .start
    let inches : Reading (Exact ℚ) := { start with units := .inches, digits := ⟨2, 4⟩ }
    isUnitLine line = true ∧ ∃ next last behind later : Reading (Exact ℚ),
      start.line line = .ok next ∧ below.foldlM Reading.line next = .ok last ∧
      inches.line line = .ok behind ∧ behind.units = next.units ∧ behind.digits = next.digits ∧
      below.foldlM Reading.line behind = .ok later ∧ next.AddAlike behind last later ∧
      (line :: below).foldlM Reading.line start = .ok last ∧ last.digits = ⟨3, 2⟩ := by
  intro line below start inches
  have hline : isUnitLine line = true := by decide
  have hgiven : givenDigits? line = some ⟨3, 2⟩ := by decide +kernel
  have hok : ((line :: below).foldlM Reading.line start).isOk = true := by decide +kernel
  obtain ⟨last, hrun⟩ := isOk_iff.mp hok
  have hparts := hrun
  rw [List.foldlM_cons] at hparts
  obtain ⟨next, hnext, hlast⟩ := bind_eq_ok.mp hparts
  obtain ⟨hlines, hruns⟩ := unit_lines_give_digits (α := Exact ℚ)
  obtain ⟨-, -, behind, hbehind, hunits, hdigits, hbelow⟩ := hlines start inches next line hline hnext
  have hsame : behind.digits = next.digits := hdigits.mpr (.inl (by rw [hgiven]; rfl))
  obtain ⟨later, hlater, halike⟩ := hbelow hsame below last hlast
  refine ⟨hline, next, last, behind, later, hnext, hlast, hbehind, hunits, hsame, hlater, halike,
    hrun, ?_⟩
  rw [hruns (line :: below) last hrun]
  decide +kernel

/-- Behind inches, a line for millimetres without a pattern leaves the counts of inches in force: a
coordinate is a tenth of what it is at the beginning. -/
theorem unit_line_keeps_inches :
    let line := "METRIC".toList
    let start : Reading (Exact ℚ) := .start
    ∃ inches behind fresh : Reading (Exact ℚ), isUnitLine line = true ∧
      start.line "INCH".toList = .ok inches ∧ inches.line line = .ok behind ∧
      start.line line = .ok fresh ∧ behind.units = fresh.units ∧
      behind.digits = ⟨2, 4⟩ ∧ fresh.digits = ⟨3, 3⟩ ∧ behind.digits ≠ fresh.digits ∧
      coordinate? behind.digits "1234".toList = some (.number (617 / 5000) : Exact ℚ) ∧
      coordinate? fresh.digits "1234".toList = some (.number (617 / 500) : Exact ℚ) := by
  intro line start
  have hrun : (["INCH".toList, line].foldlM Reading.line start).isOk = true := by decide +kernel
  have halone : (start.line line).isOk = true := by decide +kernel
  obtain ⟨last, hlast⟩ := isOk_iff.mp hrun
  obtain ⟨fresh, hfresh⟩ := isOk_iff.mp halone
  rw [List.foldlM_cons] at hlast
  obtain ⟨inches, hinches, hlast⟩ := bind_eq_ok.mp hlast
  obtain ⟨behind, hbehind, -⟩ := bind_eq_ok.mp hlast
  have hafter : behind.digits = ⟨2, 4⟩ := by
    rw [digits_of_line hbehind, digits_of_line hinches]
    decide +kernel
  have hbefore : fresh.digits = ⟨3, 3⟩ := by
    rw [digits_of_line hfresh]
    decide +kernel
  have hunits : behind.units = fresh.units := by
    rw [(heeds_of_line hbehind).units, (heeds_of_line hfresh).units]
    rfl
  have hwrites : Writes "1234".toList 1234 := ⟨by decide, List.all_eq_true.mp rfl, rfl⟩
  have hsign : ∀ c ∈ (none : Option Char), isSign c = true := nofun
  have hread (counts : DigitCount) : coordinate? counts "1234".toList =
      some (.number (unitOf false * (1234 / 10 ^ counts.decimal.toNat)) : Exact ℚ) :=
    (coordinate?_of_writes hsign hwrites counts).trans (counts.value?_number false (by decide))
  refine ⟨inches, behind, fresh, by decide, hinches, hbehind, hfresh, hunits, hafter, hbefore, ?_,
    ?_, ?_⟩
  · rw [hafter, hbefore]
    decide
  · rw [hread, hafter]
    change some (Exact.number (1 * (1234 / 10 ^ 4 : ℚ))) = _
    norm_num
  · rw [hread, hbefore]
    change some (Exact.number (1 * (1234 / 10 ^ 3 : ℚ))) = _
    norm_num

end Rational

end Reading

end BoardMill.Drill
