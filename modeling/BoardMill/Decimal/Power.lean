import BoardMill.Scalar

/-! # Powers of ten

A power of a number is taken by repeated squaring, which fixes how often and in
which order the products are rounded.
-/

namespace BoardMill.Scalar

variable {α : Type} [Scalar α]

/-- `result · base ^ n`, from the lowest binary digit of `n` up. -/
def powerFrom (result base : α) (n : Nat) : α :=
  let result := if n % 2 = 1 then result * base else result
  if n / 2 = 0 then result else powerFrom result (base * base) (n / 2)
termination_by n
decreasing_by omega

/-- Ten to an integer power. -/
def tenPow (n : Int) : α :=
  let power := powerFrom 1.0 10.0 n.natAbs
  if n < 0 then 1.0 / power else power

/-- Nearest multiple of `10 ^ -places`, a half going away from zero. A count of
`2 ^ 31` places and more is read as a negative one. -/
def roundTo (x : α) (places : UInt32) : α :=
  let factor := tenPow places.toInt32.toInt
  round (x * factor) / factor

end BoardMill.Scalar
