import BoardMill.Decimal.Fixed
import BoardMill.Decimal.Shortest

/-! # Numbers that have a written form

Programs and messages write numbers in two ways: with a fixed number of places,
and as the shortest decimal that reads back.
-/

namespace BoardMill

/-- Numbers that can be computed with and written down. -/
class Numeral (α : Type) extends Scalar α where
  /-- The number rounded to a count of decimal places. -/
  fixed : Nat → α → String
  /-- The shortest decimal that reads back, without an exponent. -/
  plain : α → String

instance : Numeral Float where
  fixed := Decimal.fixedText
  plain := Decimal.plainText

end BoardMill
