import BoardMill.Numeral
import Mathlib.Data.List.Basic

/-! # Characters of written numbers

Whatever a number is, its written forms consist of digits, a sign, a point and the
letters of the words for infinity and for what is not a number. No written form
therefore contains a blank or a line feed, and a program keeps its words and lines
apart.
-/

namespace BoardMill.Decimal

/-- The characters that numbers are written with. -/
def isNumberMark (c : Char) : Bool := c.isDigit || ['-', '.', 'N', 'a', 'i', 'n', 'f'].contains c

/-- Nothing but number marks. -/
def Marked (text : List Char) : Prop := ∀ c ∈ text, isNumberMark c

namespace Marked

theorem nil : Marked [] := fun _ h => absurd h List.not_mem_nil

theorem cons {c : Char} {text : List Char} (hc : isNumberMark c) (h : Marked text) :
    Marked (c :: text) :=
  List.forall_mem_cons.mpr ⟨hc, h⟩

theorem append {first second : List Char} (hfirst : Marked first) (hsecond : Marked second) :
    Marked (first ++ second) :=
  List.forall_mem_append.mpr ⟨hfirst, hsecond⟩

theorem of_subset {part text : List Char} (h : Marked text) (hsub : part ⊆ text) : Marked part :=
  fun c hc => h c (hsub hc)

theorem take {text : List Char} (h : Marked text) (n : Nat) : Marked (text.take n) :=
  h.of_subset (List.take_subset n text)

theorem drop {text : List Char} (h : Marked text) (n : Nat) : Marked (text.drop n) :=
  h.of_subset (List.drop_subset n text)

/-- A character that is no number mark does not occur. -/
theorem not_mem {text : List Char} (h : Marked text) {c : Char} (hc : isNumberMark c = false) :
    c ∉ text := by
  intro hmem
  rw [h c hmem] at hc
  contradiction

end Marked

theorem not_mem_toDigits {c : Char} (hc : c.isDigit = false) {n : Nat} : c ∉ toDigits n := by
  intro hmem
  rw [Nat.isDigit_of_mem_toDigits (by decide) (by decide) hmem] at hc
  cases hc

theorem eq_of_toDigits {m n : Nat} (h : toDigits m = toDigits n) : m = n :=
  calc
    m = Nat.ofDigitChars 10 (toDigits m) 0 := Nat.ofDigitChars_ten_toDigits.symm
    _ = Nat.ofDigitChars 10 (toDigits n) 0 := by rw [h]
    _ = n := Nat.ofDigitChars_ten_toDigits

theorem marked_toDigits (n : Nat) : Marked (toDigits n) := by
  intro c hc
  have hdigit := Nat.isDigit_of_mem_toDigits (by decide) (by decide) hc
  simp [isNumberMark, hdigit]

theorem marked_zeros (n : Nat) : Marked (zeros n) := by
  intro c hc
  rw [List.eq_of_mem_replicate hc]
  rfl

theorem marked_signed {text : List Char} (negative : Bool) (h : Marked text) :
    Marked (signed negative text) := by
  unfold signed
  split
  · exact .cons rfl h
  · exact h

theorem marked_placeText (places units : Nat) : Marked (placeText places units) := by
  have hdigits : Marked (padLeft (places + 1) (toDigits units)) :=
    .append (marked_zeros _) (marked_toDigits _)
  refine .append (hdigits.take _) ?_
  split
  · exact .nil
  · exact .cons rfl (hdigits.drop _)

/-- A number with a fixed count of places is written in number marks. -/
theorem marked_fixedText (places : Nat) (x : Float) : Marked (fixedText places x).toList := by
  rw [fixedText, String.toList_ofList]
  split
  next => exact .cons rfl (.cons rfl (.cons rfl .nil))
  next negative _ => exact marked_signed negative (.cons rfl (.cons rfl (.cons rfl .nil)))
  next negative m e _ _ => exact marked_signed negative (marked_placeText _ _)

namespace Interval

/-- The digits of a decimal of an interval are number marks. -/
theorem marked_atDigits? (i : Interval) (tie : Tie) (top : Int) (count : Nat) {s : Scaled}
    (h : i.atDigits? tie top count = some s) : Marked s.digits := by
  unfold atDigits? at h
  dsimp only at h
  split at h
  · cases h
    exact marked_toDigits _
  · cases h
    exact marked_toDigits _
  · cases h
    exact marked_toDigits _
  · cases h

theorem marked_shortest (i : Interval) (tie : Tie) : Marked (i.shortest tie).digits := by
  unfold shortest
  cases h : (List.range 17).findSome? fun k =>
      i.atDigits? tie (decimalExponent i.value i.den) (k + 1) with
  | none => simpa [h] using Marked.cons rfl .nil
  | some s =>
      obtain ⟨k, -, hk⟩ := List.exists_of_findSome?_eq_some h
      simpa [h] using marked_atDigits? i tie _ _ hk

end Interval

namespace Scaled

theorem marked_trimmed {s : Scaled} (h : Marked s.digits) : Marked s.trimmed.digits := by
  apply h.of_subset
  intro c hc
  rw [trimmed, List.mem_reverse] at hc
  exact List.mem_reverse.mp (List.dropWhile_subset _ hc)

theorem marked_positional {s : Scaled} (h : Marked s.digits) :
    Marked s.positional.1 ∧ Marked s.positional.2 := by
  unfold positional
  split
  · exact ⟨h.append (marked_zeros _), .nil⟩
  · split
    · exact ⟨h.take _, h.drop _⟩
    · exact ⟨.cons rfl .nil, (marked_zeros _).append h⟩

theorem marked_plain {s : Scaled} (h : Marked s.digits) : Marked s.plain := by
  obtain ⟨hwhole, hfraction⟩ := marked_positional h
  unfold plain
  split
  next whole heq =>
    rw [heq] at hwhole
    exact hwhole
  next whole fraction _ heq =>
    rw [heq] at hwhole hfraction
    exact hwhole.append (.cons rfl hfraction)

end Scaled

/-- The shortest decimal of a number is written in number marks. -/
theorem marked_plainText (x : Float) : Marked (plainText x).toList := by
  rw [plainText, String.toList_ofList]
  split
  next => exact .cons rfl (.cons rfl (.cons rfl .nil))
  next negative _ => exact marked_signed negative (.cons rfl (.cons rfl (.cons rfl .nil)))
  next negative _ _ _ => exact marked_signed negative (.cons rfl .nil)
  next negative m e edge _ _ =>
    exact marked_signed negative
      (Scaled.marked_plain (Scaled.marked_trimmed (Interval.marked_shortest _ _)))

end BoardMill.Decimal

namespace BoardMill

/-- Numbers whose written forms consist of number marks. -/
class PlainNumeral (α : Type) [Numeral α] : Prop where
  marked_fixed : ∀ (places : Nat) (x : α), Decimal.Marked (Numeral.fixed places x).toList
  marked_plain : ∀ x : α, Decimal.Marked (Numeral.plain x).toList

instance : PlainNumeral Float where
  marked_fixed := Decimal.marked_fixedText
  marked_plain := Decimal.marked_plainText

end BoardMill
