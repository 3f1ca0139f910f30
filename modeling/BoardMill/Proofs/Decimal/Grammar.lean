import BoardMill.Decimal.Reading
import Mathlib.Data.List.Basic

/-! # How numbers are written

A word is written in digits, with a plus in front of them if one likes. A coordinate is written in
digits with at most one point among them, behind an optional sign. The readers let nothing else
through.
-/

namespace BoardMill.Decimal

/-- Digits, one at least, that write a number. -/
structure Writes (text : List Char) (n : Nat) : Prop where
  ne_nil : text ≠ []
  digits : ∀ c ∈ text, isDigit c = true
  value : ofDigits text = n

/-- Digits that write a number, behind an optional plus. -/
inductive WritesPlussed : List Char → Nat → Prop
  | bare {text : List Char} {n : Nat} (h : Writes text n) : WritesPlussed text n
  | plus {text : List Char} {n : Nat} (h : Writes text n) : WritesPlussed ('+' :: text) n

def isSign (c : Char) : Bool := c == '+' || c == '-'

/-- Digits, one at least, with at most one point among them. -/
structure IsPointed (text : List Char) : Prop where
  marks : ∀ c ∈ text, isDigit c = true ∨ c = '.'
  points : text.count '.' ≤ 1
  digit : ∃ c ∈ text, isDigit c = true

/-- A pointed number behind an optional sign. -/
inductive IsCoordinate : List Char → Prop
  | bare {text : List Char} (h : IsPointed text) : IsCoordinate text
  | signed {sign : Char} {text : List Char} (hsign : isSign sign = true) (h : IsPointed text) :
    IsCoordinate (sign :: text)

theorem isSign_of_isDigit {c : Char} (h : isDigit c = true) : isSign c = false := by
  rw [Bool.eq_false_iff]
  intro hsign
  rcases (Bool.or_eq_true _ _).mp hsign with hplus | hminus
  · rw [beq_iff_eq.mp hplus] at h
    cases h
  · rw [beq_iff_eq.mp hminus] at h
    cases h

/-- Nothing is split off a text without a sign in front. -/
theorem splitSign_of_unsigned {text : List Char} (h : ∀ c ∈ text.head?, isSign c = false) :
    splitSign text = (false, text) := by
  unfold splitSign
  split
  next => cases h '-' rfl
  next => cases h '+' rfl
  next => rfl

theorem splitSign_of_isDigit {c : Char} (rest : List Char) (h : isDigit c = true) :
    splitSign (c :: rest) = (false, c :: rest) :=
  splitSign_of_unsigned (by
    rintro _ ⟨⟩
    exact isSign_of_isDigit h)

/-- An optional sign is split off what stands behind it. -/
theorem splitSign_toList_append {sign : Option Char} (hsign : ∀ c ∈ sign, isSign c = true)
    {text : List Char} (h : ∀ c ∈ text.head?, isSign c = false) :
    splitSign (sign.toList ++ text) = (sign == some '-', text) := by
  cases sign with
  | none => exact splitSign_of_unsigned h
  | some c =>
      rcases (Bool.or_eq_true _ _).mp (hsign c rfl) with hplus | hminus
      · rw [beq_iff_eq.mp hplus]
        rfl
      · rw [beq_iff_eq.mp hminus]
        rfl

theorem point_not_mem {text : List Char} (h : ∀ c ∈ text, isDigit c = true) : '.' ∉ text :=
  fun hmem => Bool.false_ne_true (h '.' hmem)

theorem Writes.isSign_eq_false {text : List Char} {n : Nat} (h : Writes text n) :
    ∀ c ∈ text, isSign c = false :=
  fun c hc => isSign_of_isDigit (h.digits c hc)

/-- Digits behind an optional sign are split off it. -/
theorem Writes.splitSign_append {sign : Option Char} (hsign : ∀ c ∈ sign, isSign c = true)
    {digits : List Char} {n : Nat} (h : Writes digits n) :
    splitSign (sign.toList ++ digits) = (sign == some '-', digits) :=
  splitSign_toList_append hsign fun c hc => h.isSign_eq_false c (List.mem_of_mem_head? hc)

/-- There is no point among digits behind an optional sign. -/
theorem Writes.point_not_mem_signed {sign : Option Char} (hsign : ∀ c ∈ sign, isSign c = true)
    {digits : List Char} {n : Nat} (h : Writes digits n) : '.' ∉ sign.toList ++ digits := by
  rw [List.mem_append, Option.mem_toList]
  rintro (hmem | hmem)
  · cases hsign _ hmem
  · exact point_not_mem h.digits hmem

theorem IsPointed.isSign_eq_false {text : List Char} (h : IsPointed text) :
    ∀ c ∈ text, isSign c = false := by
  intro c hc
  rcases h.marks c hc with hdigit | rfl
  · exact isSign_of_isDigit hdigit
  · rfl

/-- Digits alone are a pointed number. -/
theorem isPointed_of_digits {text : List Char} (hne : text ≠ [])
    (h : ∀ c ∈ text, isDigit c = true) : IsPointed text where
  marks c hc := .inl (h c hc)
  points := by simp [List.count_eq_zero_of_not_mem (point_not_mem h)]
  digit := by
    obtain ⟨c, hc⟩ := List.exists_mem_of_ne_nil text hne
    exact ⟨c, hc, h c hc⟩

/-! ## What the readers let through -/

theorem writesPlussed_of_readWord32? {text : List Char} {n : Nat} (h : readWord32? text = some n) :
    WritesPlussed text n := by
  have hwrites {digits : List Char} {limit : Nat}
      (h : (if digits.isEmpty || !digits.all isDigit then none
        else if ofDigits digits ≤ limit then some (ofDigits digits) else none) = some n) :
      Writes digits n := by
    obtain ⟨⟨hne, hdigits⟩, -, hvalue⟩ := by simpa using h
    exact ⟨hne, hdigits, hvalue⟩
  unfold readWord32? readUpTo? at h
  dsimp only at h
  split at h
  next rest => exact .plus (hwrites h)
  next => exact .bare (hwrites h)

/-- Digits are read as the word that they write, if it is small enough. -/
theorem readWord32?_of_writes {text : List Char} {n : Nat} (h : Writes text n) :
    readWord32? text = if n ≤ maxWord32 then some n else none := by
  unfold readWord32? readUpTo?
  dsimp only
  split
  next => cases h.isSign_eq_false '+' List.mem_cons_self
  next =>
    rw [if_neg (by simpa using ⟨h.ne_nil, h.digits⟩), h.value]

/-- What is behind the sign decides whether a text is a coordinate. -/
theorem isCoordinate_of_splitSign {text : List Char} (h : IsPointed (splitSign text).2) :
    IsCoordinate text := by
  unfold splitSign at h
  split at h
  · exact .signed rfl h
  · exact .signed rfl h
  · exact .bare h

theorem splitAtFirst?_append {mark : Char} {before : List Char} (h : mark ∉ before)
    (after : List Char) : splitAtFirst? mark (before ++ mark :: after) = some (before, after) := by
  induction before with
  | nil => exact if_pos rfl
  | cons c rest ih =>
      obtain ⟨hc, hrest⟩ := not_or.mp (List.mem_cons.not.mp h)
      rw [List.cons_append, splitAtFirst?, if_neg (Ne.symm hc), ih hrest]
      rfl

theorem splitAtFirst?_eq_none {mark : Char} {text : List Char} (h : mark ∉ text) :
    splitAtFirst? mark text = none := by
  induction text with
  | nil => rfl
  | cons c rest ih =>
      obtain ⟨hc, hrest⟩ := not_or.mp (List.mem_cons.not.mp h)
      rw [splitAtFirst?, if_neg (Ne.symm hc), ih hrest]
      rfl

theorem splitAtFirst?_eq_some_iff {mark : Char} {text before after : List Char} :
    splitAtFirst? mark text = some (before, after) ↔
      text = before ++ mark :: after ∧ mark ∉ before := by
  constructor
  · intro h
    induction text generalizing before with
    | nil => cases h
    | cons c rest ih =>
        unfold splitAtFirst? at h
        split at h
        next hmark =>
          cases h
          exact ⟨by rw [hmark, List.nil_append], List.not_mem_nil⟩
        next hmark =>
          obtain ⟨⟨first, second⟩, hrest, hparts⟩ := Option.map_eq_some_iff.mp h
          cases hparts
          obtain ⟨rfl, hfirst⟩ := ih hrest
          exact ⟨List.cons_append, List.not_mem_cons_of_ne_of_not_mem (Ne.symm hmark) hfirst⟩
  · rintro ⟨rfl, h⟩
    exact splitAtFirst?_append h after

/-- Digits before and behind a point are a pointed number if there are any. -/
theorem isPointed_of_point {whole fraction : List Char} (hne : ¬ (whole = [] ∧ fraction = []))
    (hwhole : ∀ c ∈ whole, isDigit c = true) (hfraction : ∀ c ∈ fraction, isDigit c = true) :
    IsPointed (whole ++ '.' :: fraction) where
  marks c hc := by
    rw [List.mem_append, List.mem_cons] at hc
    rcases hc with hc | rfl | hc
    · exact .inl (hwhole c hc)
    · exact .inr rfl
    · exact .inl (hfraction c hc)
  points := by
    have hone : (whole ++ '.' :: fraction).count '.' = 1 := by
      rw [List.count_append, List.count_cons_self,
        List.count_eq_zero_of_not_mem (point_not_mem hwhole),
        List.count_eq_zero_of_not_mem (point_not_mem hfraction)]
    exact Nat.le_of_eq hone
  digit := by
    have hdigits : whole ++ fraction ≠ [] := by rwa [Ne, List.append_eq_nil_iff]
    obtain ⟨c, hc⟩ := List.exists_mem_of_ne_nil _ hdigits
    rcases List.mem_append.mp hc with hc | hc
    · exact ⟨c, List.mem_append_left _ hc, hwhole c hc⟩
    · exact ⟨c, List.mem_append_right _ (List.mem_cons_of_mem _ hc), hfraction c hc⟩

end BoardMill.Decimal
