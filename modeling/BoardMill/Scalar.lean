/-! # The numbers of the drawing plane

Geometry is written once, over any type of numbers with the operations of
`Scalar`, so that the same definitions run on `Float` and can be reasoned
about in exact arithmetic. Comparison is that of the number type: a value
that is not a number compares with nothing, itself included.
-/

namespace BoardMill

/-- Arithmetic, comparison and the elementary functions that geometry uses. -/
class Scalar (α : Type) extends Add α, Sub α, Mul α, Div α, Neg α, LT α, LE α, BEq α,
    OfScientific α where
  decLt : DecidableRel (fun a b : α => a < b)
  decLe : DecidableRel (fun a b : α => a ≤ b)
  /-- Distance from zero. -/
  abs : α → α
  /-- Nonnegative square root. -/
  sqrt : α → α
  /-- Sine of an angle in radians. -/
  sin : α → α
  /-- Cosine of an angle in radians. -/
  cos : α → α
  /-- `angle y x` is the direction of the vector `(x, y)`, from `-π` to `π`. -/
  angle : α → α → α
  /-- Remainder of a division rounded toward zero. -/
  remainder : α → α → α
  /-- The least integer not below. -/
  ceil : α → α
  /-- The nearest integer, a half going away from zero. -/
  round : α → α
  /-- The number nearest among those of single precision. -/
  single : α → α
  /-- Half of a full turn. -/
  pi : α
  /-- An upper bound of all numbers. -/
  infinity : α
  isFinite : α → Bool
  /-- The integer part: zero below one and for what is not a number, and never
  above the greatest 64-bit word. -/
  toNat : α → Nat
  /-- The integer part, held within the 32-bit signed integers. -/
  toInt : α → Int

namespace Scalar

variable {α : Type} [Scalar α]

instance (a b : α) : Decidable (a < b) := Scalar.decLt a b

instance (a b : α) : Decidable (a ≤ b) := Scalar.decLe a b

/-- The number nearest to a natural number. -/
def ofNat (n : Nat) : α := OfScientific.ofScientific n false 0

/-- Only what is not a number differs from itself. -/
def isNaN (a : α) : Bool := !(a == a)

/-- The lesser of two numbers. What is not a number gives way to the other operand. -/
def min (a b : α) : α := if isNaN a then b else if b < a then b else a

/-- The greater of two numbers. What is not a number gives way to the other operand. -/
def max (a b : α) : α := if isNaN a then b else if a < b then b else a

/-- A full turn. -/
def turn : α := 2.0 * pi

/-- Square. -/
def sq (a : α) : α := a * a

/-- Remainder that is never negative. -/
def wrap (a b : α) : α :=
  let r := remainder a b
  if r < 0.0 then r + abs b else r

/-- Degrees to radians. -/
def ofDegrees (a : α) : α := a * (pi / 180.0)

end Scalar

/-- A point of the plane. -/
structure Point (α : Type) where
  x : α
  y : α
  deriving BEq, Repr, Inhabited

end BoardMill
