/-! # Decimal digits

Natural numbers and the lists of digits that write them.
-/

namespace BoardMill.Decimal

/-- One of the ten digits `0` to `9`, and no other script's. -/
def isDigit (c : Char) : Bool := '0' ≤ c && c ≤ '9'

/-- What a digit counts. -/
def digitValue (c : Char) : Nat := c.toNat - '0'.toNat

/-- The number that a list of digits writes. -/
def ofDigits (digits : List Char) : Nat :=
  digits.foldl (fun n c => 10 * n + digitValue c) 0

/-- The digits of a number, without zeros in front. -/
def toDigits (n : Nat) : List Char := Nat.toDigits 10 n

/-- As many zeros as asked for. -/
def zeros (n : Nat) : List Char := List.replicate n '0'

/-- Digits filled up with zeros in front to a width. -/
def padLeft (width : Nat) (digits : List Char) : List Char :=
  zeros (width - digits.length) ++ digits

/-- Digits filled up with zeros behind to a width. -/
def padRight (width : Nat) (digits : List Char) : List Char :=
  digits ++ zeros (width - digits.length)

/-- The quotient rounded to the nearest integer, a half to the even one. -/
def roundHalfEven (num den : Nat) : Nat :=
  let floor := num / den
  let twice := 2 * (num % den)
  if twice < den then floor
  else if den < twice then floor + 1
  else floor + floor % 2

end BoardMill.Decimal
