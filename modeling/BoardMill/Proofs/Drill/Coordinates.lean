import BoardMill.Proofs.Decimal.Plain
import BoardMill.Proofs.Drill.Patterns

/-! # Two readers of coordinates

A drill file fills its digits up with zeros in front, a document that leaves out leading zeros reads
them as they are. Both come to the same, for every text: what has a point is a plain decimal, and all
else is digits behind an optional sign that write a number within a signed 64-bit integer.
-/

namespace BoardMill

open Decimal

variable {α : Type} [Scalar α] {text : List Char} {v : α}

namespace Decimal

/-- A text is its sign, if it has one, and what is split off it. -/
theorem exists_of_splitSign (text : List Char) :
    ∃ (sign : Option Char) (rest : List Char), (∀ c ∈ sign, isSign c = true) ∧
      text = sign.toList ++ rest ∧ splitSign text = (sign == some '-', rest) := by
  unfold splitSign
  split
  next rest => exact ⟨some '-', rest, by rintro c ⟨⟩; rfl, rfl, rfl⟩
  next rest => exact ⟨some '+', rest, by rintro c ⟨⟩; rfl, rfl, rfl⟩
  next => exact ⟨none, text, nofun, rfl, rfl⟩

end Decimal

/-- Digits that write a number within a signed 64-bit integer, behind an optional sign, and the
coordinate that they give. -/
inductive DigitCount.WritesBare (count : DigitCount) : List Char → α → Prop
  | intro {sign : Option Char} {digits : List Char} {n : ℕ} (hsign : ∀ c ∈ sign, isSign c = true)
    (hdigits : Writes digits n) (hn : n < 2 ^ 63) :
    WritesBare count (sign.toList ++ digits) (withSign (sign == some '-')
      (Scalar.ofNat n / Scalar.tenPow (Int.ofNat count.decimal.toNat)))

namespace DigitCount

variable {count : DigitCount}

theorem WritesBare.point_not_mem (h : count.WritesBare text v) : '.' ∉ text := by
  obtain ⟨hsign, hdigits, -⟩ := h
  exact hdigits.point_not_mem_signed hsign

/-- Zeros that are filled in front of digits make no difference to what is read. -/
theorem readFilled?_eq_some_iff {fill : List Char → List Char}
    (hfill : ∀ digits, ofDigits (fill digits) = ofDigits digits) :
    count.readFilled? fill text = some v ↔
      ('.' ∈ text ∧ WritesPlain text v ∧ Scalar.isFinite v = true) ∨ count.WritesBare text v := by
  by_cases hpoint : '.' ∈ text
  · have hbare : ¬ count.WritesBare text v := fun h => h.point_not_mem hpoint
    rw [readFilled?, if_pos (by simpa using hpoint), readPlain?_eq_some_iff]
    simp [hpoint, hbare]
  · simp only [hpoint, false_and, false_or]
    constructor
    · intro h
      obtain ⟨sign, digits, hsign, rfl, hsplit⟩ := exists_of_splitSign text
      have hshape := h
      rw [readFilled?, if_neg (by simpa using hpoint), hsplit] at hshape
      obtain ⟨hshape, -⟩ := Option.ite_none_left_eq_some.mp hshape
      obtain ⟨hne, hall⟩ : digits ≠ [] ∧ ∀ c ∈ digits, isDigit c = true := by simpa using hshape
      have hdigits : Writes digits (ofDigits digits) := ⟨hne, hall, rfl⟩
      rw [readFilled?_of_writes _ hsign hdigits, value?_eq_some_iff, hfill] at h
      obtain ⟨hn, rfl⟩ := h
      exact .intro hsign hdigits hn
    · rintro ⟨hsign, hdigits, hn⟩
      rw [readFilled?_of_writes _ hsign hdigits, value?_eq_some_iff, hfill, hdigits.value]
      exact ⟨hn, rfl⟩

end DigitCount

/-- Whatever the digit counts are, also if a byte does not hold their sum, a drill file and a document
that leaves out leading zeros read the same texts as coordinates, and with the same values. -/
theorem Drill.coordinate?_eq_decode? (x y : DigitCount) (axis : Axis) (text : List Char) :
    let format : CoordinateFormat := ⟨.leading, x, y⟩
    let count := format.count axis
    (coordinate? count text : Option α) = format.decode? axis text ∧
      ∀ v : α, coordinate? count text = some v ↔
        ('.' ∈ text ∧ WritesPlain text v ∧ Scalar.isFinite v = true) ∨ count.WritesBare text v := by
  intro format count
  have hdrill (v : α) : coordinate? count text = some v ↔
      ('.' ∈ text ∧ WritesPlain text v ∧ Scalar.isFinite v = true) ∨ count.WritesBare text v :=
    DigitCount.readFilled?_eq_some_iff fun digits => ofDigits_padLeft count.total digits
  have hdocument (v : α) : format.decode? axis text = some v ↔
      ('.' ∈ text ∧ WritesPlain text v ∧ Scalar.isFinite v = true) ∨ count.WritesBare text v :=
    DigitCount.readFilled?_eq_some_iff fun digits => rfl
  exact ⟨Option.ext fun v => (hdrill v).trans (hdocument v).symm, hdrill⟩

end BoardMill
