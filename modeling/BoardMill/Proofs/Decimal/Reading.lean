import BoardMill.Proofs.Decimal.Grammar
import BoardMill.Proofs.Decimal.Marks

/-! # Reading words back

A 32-bit word is read from digits with at most one sign, and in particular from those that it is
written with.
-/

namespace BoardMill.Decimal

/-- Numbers are written with digits and a sign. -/
theorem isDigit_of_readWord32? {text : List Char} {n : Nat} (h : readWord32? text = some n) :
    ∀ c ∈ text, c = '+' ∨ isDigit c = true := by
  cases writesPlussed_of_readWord32? h with
  | bare h => exact fun c hc => .inr (h.digits c hc)
  | plus h => exact List.forall_mem_cons.mpr ⟨.inl rfl, fun c hc => .inr (h.digits c hc)⟩

/-- A text with a character in it that no number is written with is no number. -/
theorem readWord32?_eq_none {text : List Char} {c : Char} (hc : c ∈ text) (hsign : c ≠ '+')
    (hdigit : isDigit c = false) : readWord32? text = none := by
  by_contra hread
  obtain ⟨n, hn⟩ := Option.ne_none_iff_exists'.mp hread
  rcases isDigit_of_readWord32? hn c hc with rfl | h
  · exact hsign rfl
  · rw [hdigit] at h
    cases h

theorem writes_toDigits (n : Nat) : Writes (toDigits n) n where
  ne_nil := Nat.toDigits_ne_nil
  digits c hc := Nat.isDigit_of_mem_toDigits (by decide) (by decide) hc
  value := Nat.ofDigitChars_ten_toDigits

theorem readWord32?_toDigits {n : Nat} (h : n ≤ maxWord32) : readWord32? (toDigits n) = some n := by
  rw [readWord32?_of_writes (writes_toDigits n), if_pos h]

end BoardMill.Decimal
