import BoardMill.Proofs.Decimal.Grammar
import Mathlib.Tactic.Ring

/-! # Zeros around digits

Zeros in front of digits have no effect on the number that these write. Each zero behind them
multiplies it by ten.
-/

namespace BoardMill.Decimal

theorem length_zeros (n : Nat) : (zeros n).length = n := List.length_replicate

theorem zeros_append_zeros (m n : Nat) : zeros m ++ zeros n = zeros (m + n) :=
  List.replicate_append_replicate

theorem isDigit_of_mem_zeros {n : Nat} : ∀ c ∈ zeros n, isDigit c = true := by
  intro c hc
  rw [List.eq_of_mem_replicate hc]
  rfl

theorem ofDigits_zeros_append (n : Nat) (digits : List Char) :
    ofDigits (zeros n ++ digits) = ofDigits digits := by
  induction n with
  | zero => rfl
  | succ n ih => exact ih

theorem ofDigits_append_zeros (digits : List Char) (n : Nat) :
    ofDigits (digits ++ zeros n) = ofDigits digits * 10 ^ n := by
  induction n with
  | zero => rw [zeros, List.replicate_zero, List.append_nil, pow_zero, mul_one]
  | succ n ih =>
      have hlast : ofDigits (digits ++ zeros n ++ ['0']) = 10 * ofDigits (digits ++ zeros n) := by
        rw [ofDigits, List.foldl_append]
        rfl
      rw [← zeros_append_zeros n 1, ← List.append_assoc]
      refine hlast.trans ?_
      rw [ih]
      ring

theorem Writes.zeros_append {digits : List Char} {n : Nat} (h : Writes digits n) (k : Nat) :
    Writes (zeros k ++ digits) n where
  ne_nil := List.append_ne_nil_of_right_ne_nil _ h.ne_nil
  digits := List.forall_mem_append.mpr ⟨isDigit_of_mem_zeros, h.digits⟩
  value := (ofDigits_zeros_append k digits).trans h.value

theorem Writes.append_zeros {digits : List Char} {n : Nat} (h : Writes digits n) (k : Nat) :
    Writes (digits ++ zeros k) (n * 10 ^ k) where
  ne_nil := List.append_ne_nil_of_left_ne_nil h.ne_nil _
  digits := List.forall_mem_append.mpr ⟨h.digits, isDigit_of_mem_zeros⟩
  value := (ofDigits_append_zeros digits k).trans (congrArg (· * 10 ^ k) h.value)

theorem ofDigits_padLeft (width : Nat) (digits : List Char) :
    ofDigits (padLeft width digits) = ofDigits digits :=
  ofDigits_zeros_append _ digits

/-- Zeros that are there already need not be filled up. -/
theorem padRight_append_zeros (width : Nat) (digits : List Char) (n : Nat) :
    padRight width (digits ++ zeros n) = digits ++ zeros (max n (width - digits.length)) := by
  rw [padRight, List.append_assoc, zeros_append_zeros, List.length_append, length_zeros]
  congr 2
  omega

end BoardMill.Decimal
