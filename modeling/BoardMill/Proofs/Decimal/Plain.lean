import BoardMill.Proofs.Decimal.Grammar

/-! # Plain decimals and their numbers

A plain decimal is digits with at most one point among them, one digit at least, behind an optional
sign. It stands for the number of the type that is nearest to what it writes, and it is read exactly
if that number is finite.
-/

namespace BoardMill.Decimal

variable {α : Type} [Scalar α]

/-- Digits, with or without a point among them, and the number nearest to what they write. -/
inductive WritesUnsigned : List Char → α → Prop
  | whole {digits : List Char} (hne : digits ≠ []) (hdigits : ∀ c ∈ digits, isDigit c = true) :
    WritesUnsigned digits (ofParts digits [])
  | point {whole fraction : List Char} (hne : ¬ (whole = [] ∧ fraction = []))
    (hwhole : ∀ c ∈ whole, isDigit c = true) (hfraction : ∀ c ∈ fraction, isDigit c = true) :
    WritesUnsigned (whole ++ '.' :: fraction) (ofParts whole fraction)

/-- A plain decimal and its number. -/
inductive WritesPlain : List Char → α → Prop
  | bare {text : List Char} {value : α} (h : WritesUnsigned text value) : WritesPlain text value
  | plus {text : List Char} {value : α} (h : WritesUnsigned text value) :
    WritesPlain ('+' :: text) value
  | minus {text : List Char} {value : α} (h : WritesUnsigned text value) :
    WritesPlain ('-' :: text) (-value)

variable {text whole fraction : List Char} {value : α}

theorem WritesUnsigned.isPointed (h : WritesUnsigned text value) : IsPointed text := by
  cases h with
  | whole hne hdigits => exact isPointed_of_digits hne hdigits
  | point hne hwhole hfraction => exact isPointed_of_point hne hwhole hfraction

theorem WritesPlain.isCoordinate (h : WritesPlain text value) : IsCoordinate text := by
  cases h with
  | bare h => exact .bare h.isPointed
  | plus h => exact .signed rfl h.isPointed
  | minus h => exact .signed rfl h.isPointed

/-- An unsigned number has no sign in front. -/
theorem WritesUnsigned.splitSign_eq (h : WritesUnsigned text value) :
    splitSign text = (false, text) :=
  splitSign_of_unsigned fun c hc => h.isPointed.isSign_eq_false c (List.mem_of_mem_head? hc)

/-! ## The parts of a number -/

theorem plainParts?_eq_some (hsplit : (splitAtFirst? '.' text).getD (text, []) = (whole, fraction))
    (hne : ¬ (whole = [] ∧ fraction = [])) (hwhole : ∀ c ∈ whole, isDigit c = true)
    (hfraction : ∀ c ∈ fraction, isDigit c = true) :
    plainParts? text = some (whole, fraction) := by
  unfold plainParts?
  dsimp only
  rw [hsplit, if_neg]
  simpa using ⟨⟨fun hwhole hfraction => hne ⟨hwhole, hfraction⟩, hwhole⟩, hfraction⟩

theorem WritesUnsigned.exists_parts (h : WritesUnsigned text value) :
    ∃ whole fraction, plainParts? text = some (whole, fraction) ∧ value = ofParts whole fraction := by
  cases h with
  | whole hne hdigits =>
      refine ⟨text, [], plainParts?_eq_some ?_ (fun hnil => hne hnil.1) hdigits nofun, rfl⟩
      rw [splitAtFirst?_eq_none (point_not_mem hdigits)]
      rfl
  | @point whole fraction hne hwhole hfraction =>
      refine ⟨whole, fraction, plainParts?_eq_some ?_ hne hwhole hfraction, rfl⟩
      rw [splitAtFirst?_append (point_not_mem hwhole)]
      rfl

theorem writesUnsigned_of_plainParts? (h : plainParts? text = some (whole, fraction)) :
    WritesUnsigned text (ofParts whole fraction : α) := by
  obtain ⟨hdigits, hparts⟩ := Option.ite_none_left_eq_some.mp h
  obtain ⟨⟨hne, hwhole⟩, hfraction⟩ := by simpa using hdigits
  cases hsplit : splitAtFirst? '.' text with
  | none =>
      rw [hsplit] at hparts hne hwhole
      cases hparts
      exact .whole (by simpa using hne) hwhole
  | some parts =>
      rw [hsplit] at hparts hne hwhole hfraction
      cases hparts
      rw [(splitAtFirst?_eq_some_iff.mp hsplit).1]
      exact .point (fun hnil => hne hnil.1 hnil.2) hwhole hfraction

/-! ## Reading -/

/-- What a text says that is split into its sign and its parts. -/
theorem readPlain?_of_parts {negative : Bool} {unsigned : List Char}
    (hsign : splitSign text = (negative, unsigned))
    (hparts : plainParts? unsigned = some (whole, fraction)) :
    (readPlain? text : Option α) = if Scalar.isFinite (withSign negative (ofParts whole fraction) : α)
      then some (withSign negative (ofParts whole fraction)) else none := by
  unfold readPlain?
  rw [hsign]
  dsimp only
  rw [hparts]
  rfl

theorem readPlain?_of_writes (h : WritesPlain text value) :
    readPlain? text = if Scalar.isFinite value then some value else none := by
  cases h with
  | bare h =>
      obtain ⟨whole, fraction, hparts, rfl⟩ := h.exists_parts
      exact readPlain?_of_parts h.splitSign_eq hparts
  | plus h =>
      obtain ⟨whole, fraction, hparts, rfl⟩ := h.exists_parts
      exact readPlain?_of_parts rfl hparts
  | minus h =>
      obtain ⟨whole, fraction, hparts, rfl⟩ := h.exists_parts
      exact readPlain?_of_parts rfl hparts

/-- A text writes one number, if that number is finite. -/
theorem WritesPlain.eq_of_isFinite {other : α} (h : WritesPlain text value)
    (hother : WritesPlain text other) (hfinite : Scalar.isFinite other = true) : value = other := by
  have hread := readPlain?_of_writes h
  rw [readPlain?_of_writes hother, if_pos hfinite] at hread
  exact Option.some.inj (Option.ite_none_right_eq_some.mp hread.symm).2

/-- Behind its sign, a plain decimal is an unsigned number. -/
theorem writesPlain_of_splitSign (h : WritesUnsigned (splitSign text).2 value) :
    WritesPlain text (withSign (splitSign text).1 value) := by
  unfold splitSign at h ⊢
  split at h
  · exact .minus h
  · exact .plus h
  · exact .bare h

theorem readPlain?_eq_some_iff :
    readPlain? text = some value ↔ WritesPlain text value ∧ Scalar.isFinite value = true := by
  constructor
  · intro h
    obtain ⟨⟨whole, fraction⟩, hparts, hvalue⟩ := Option.bind_eq_some_iff.mp h
    obtain ⟨hfinite, hvalue⟩ := Option.ite_none_right_eq_some.mp hvalue
    cases hvalue
    exact ⟨writesPlain_of_splitSign (writesUnsigned_of_plainParts? hparts), hfinite⟩
  · rintro ⟨h, hfinite⟩
    rw [readPlain?_of_writes h, if_pos hfinite]

theorem isCoordinate_of_readPlain? (h : readPlain? text = some value) : IsCoordinate text :=
  (readPlain?_eq_some_iff.mp h).1.isCoordinate

end BoardMill.Decimal
