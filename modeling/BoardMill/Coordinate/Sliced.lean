import BoardMill.Coordinate
import BoardMill.Text.Slice

/-! # Coordinates by slices

The sign of a coordinate is cut off at the position behind it.
-/

namespace BoardMill

variable {α ε : Type} [Scalar α]

/-- Cuts one sign off: whether it was a minus, and the rest. -/
def Slicing.splitSign (text : List Char) : Slicing ε (Bool × List Char) := do
  match text.head? with
  | some '-' => return (true, ← behind 1 text)
  | some '+' => return (false, ← behind 1 text)
  | _ => return (false, text)

/-- Reads a coordinate whose sign is cut off. -/
def DigitCount.readSliced? (count : DigitCount) (fill : List Char → List Char) (text : List Char) :
    Slicing ε (Option α) := do
  if text.contains '.' then return Decimal.readPlain? text
  let (negative, digits) ← Slicing.splitSign text
  if digits.isEmpty || !digits.all Decimal.isDigit then return none
  return count.value? negative (fill digits)

/-- The coordinate that a text gives along an axis, its sign cut off. -/
def CoordinateFormat.decodeSliced? (format : CoordinateFormat) (axis : Axis) (text : List Char) :
    Slicing ε (Option α) :=
  (format.count axis).readSliced? (format.fill axis) text

end BoardMill
