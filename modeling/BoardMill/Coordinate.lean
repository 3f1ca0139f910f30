import BoardMill.Decimal.Power
import BoardMill.Decimal.Reading

/-! # Coordinate numbers

A coordinate is written as a plain decimal, or as bare digits whose point is
implied: the last digits are the fraction where leading zeros may be left out,
and the first ones the integer part where trailing zeros may. The digits are read
as a signed 64-bit integer, so longer ones are no coordinate.
-/

namespace BoardMill

/-- The zeros that a coordinate may leave out. -/
inductive ZeroOmission where
  | leading
  | trailing
  deriving DecidableEq, Repr, Inhabited

/-- How many digits stand before and behind the implied point. -/
structure DigitCount where
  integer : UInt8
  decimal : UInt8
  deriving DecidableEq, Repr, Inhabited

/-- The two directions a coordinate can measure. -/
inductive Axis where
  | x
  | y
  deriving DecidableEq, Repr

/-- How the bare digits of coordinates are to be read. -/
structure CoordinateFormat where
  zeros : ZeroOmission
  x : DigitCount
  y : DigitCount
  deriving DecidableEq, Repr, Inhabited

namespace DigitCount

variable {α : Type} [Scalar α]

/-- The count of all digits, as a byte. -/
def total (count : DigitCount) : Nat := (count.integer + count.decimal).toNat

/-- The number that digits mean once all zeros are there. -/
def value? (count : DigitCount) (negative : Bool) (digits : List Char) : Option α :=
  let raw := Decimal.ofDigits digits
  if raw ≤ Decimal.maxInt64 then
    some (Decimal.withSign negative
      (Scalar.ofNat raw / Scalar.tenPow (Int.ofNat count.decimal.toNat)))
  else none

/-- Reads a coordinate whose bare digits are completed by `fill` before they are
given their value. -/
def readFilled? (count : DigitCount) (fill : List Char → List Char) (text : List Char) :
    Option α :=
  if text.contains '.' then Decimal.readPlain? text
  else
    let (negative, digits) := Decimal.splitSign text
    if digits.isEmpty || !digits.all Decimal.isDigit then none
    else count.value? negative (fill digits)

end DigitCount

namespace CoordinateFormat

variable {α : Type} [Scalar α]

/-- The digit count of an axis. -/
def count (format : CoordinateFormat) : Axis → DigitCount
  | .x => format.x
  | .y => format.y

/-- Puts back the zeros that were left out behind the digits. Those left out in
front have no effect on the value. -/
def fill (format : CoordinateFormat) (axis : Axis) (digits : List Char) : List Char :=
  match format.zeros with
  | .leading => digits
  | .trailing => Decimal.padRight (format.count axis).total digits

/-- The coordinate that a text gives along an axis, in the units of the file. -/
def decode? (format : CoordinateFormat) (axis : Axis) (text : List Char) : Option α :=
  (format.count axis).readFilled? (format.fill axis) text

end CoordinateFormat

end BoardMill
