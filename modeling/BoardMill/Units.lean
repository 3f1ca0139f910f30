import BoardMill.Scalar

/-! # Units of length

Files measure in millimetres or inches; everything that leaves the library is in
millimetres.
-/

namespace BoardMill

/-- The unit in which a file gives its lengths. -/
inductive Units where
  | millimeters
  | inches
  deriving DecidableEq, Repr, Inhabited

namespace Units

variable {α : Type} [Scalar α]

/-- How many millimetres the unit has. -/
def scale : Units → α
  | millimeters => 1.0
  | inches => 25.4

/-- A length in millimetres. -/
def toMm (u : Units) (length : α) : α := length * u.scale

/-- A point in millimetres. -/
def pointToMm (u : Units) (p : Point α) : Point α := ⟨u.toMm p.x, u.toMm p.y⟩

end Units

end BoardMill
