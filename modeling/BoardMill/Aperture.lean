import BoardMill.Box
import BoardMill.Numeral

/-! # Apertures

An aperture is a shape, possibly with a hole in its middle, that a plotter stamps
or draws with. An aperture can only be made with sizes that are not negative,
three to twelve vertices, and a hole that fits.
-/

namespace BoardMill

/-- The outer shape, sizes in the units of the file. A polygon is rotated by degrees. -/
inductive Shape (α : Type) where
  | circle (diameter : α)
  | rectangle (xSize ySize : α)
  | obround (xSize ySize : α)
  | polygon (outerDiameter : α) (vertices : Nat) (rotation : α)
  deriving BEq, Repr

/-- The hole in the middle. -/
inductive Hole (α : Type) where
  | circle (diameter : α)
  | rectangle (xSize ySize : α)
  deriving BEq, Repr

/-- A width and a height. -/
structure Size (α : Type) where
  width : α
  height : α
  deriving BEq, Repr

/-- A numbered shape with its hole. -/
structure Aperture (α : Type) where
  number : Nat
  shape : Shape α
  hole : Option (Hole α)
  deriving BEq, Repr

/-- Why an aperture cannot be used. -/
inductive ApertureDefect (α : Type) where
  | negativeSize (number : Nat)
  | vertexCount (number vertices : Nat)
  | negativeHole (number : Nat)
  | holeTooLarge (number : Nat) (hole outer : Size α)
  | definedTwice (number : Nat)
  deriving Repr

/-- Width and height as a message shows them. -/
def Size.text {α : Type} [Numeral α] (s : Size α) : String :=
  s!"{Numeral.plain s.width}x{Numeral.plain s.height}"

/-- What is wrong, in words. -/
def ApertureDefect.message {α : Type} [Numeral α] : ApertureDefect α → String
  | negativeSize number => s!"D{number}: negative aperture size"
  | vertexCount number vertices => s!"D{number}: polygon needs 3 to 12 vertices, got {vertices}"
  | negativeHole number => s!"D{number}: negative hole size"
  | holeTooLarge number hole outer =>
    s!"D{number}: hole {hole.text} larger than aperture {outer.text}"
  | definedTwice number => s!"aperture D{number} defined twice"

variable {α : Type} [Scalar α]

/-- Neither side is negative, and both are numbers. -/
def Size.isNonneg (s : Size α) : Bool := 0.0 ≤ s.width && 0.0 ≤ s.height

/-- Full width and height of the shape. -/
def Shape.size : Shape α → Size α
  | circle diameter => ⟨diameter, diameter⟩
  | rectangle xSize ySize => ⟨xSize, ySize⟩
  | obround xSize ySize => ⟨xSize, ySize⟩
  | polygon outerDiameter _ _ => ⟨outerDiameter, outerDiameter⟩

/-- Full width and height of the hole. -/
def Hole.size : Hole α → Size α
  | circle diameter => ⟨diameter, diameter⟩
  | rectangle xSize ySize => ⟨xSize, ySize⟩

/-- Polygons have three to twelve vertices. -/
def Shape.hasVertices : Shape α → Bool
  | polygon _ vertices _ => 3 ≤ vertices && vertices ≤ 12
  | _ => true

/-- Vertices of a polygon, none for the other shapes. -/
def Shape.vertexCount : Shape α → Nat
  | polygon _ vertices _ => vertices
  | _ => 0

namespace Aperture

/-- Full width and height. -/
def size (a : Aperture α) : Size α := a.shape.size

/-- Checks the hole against the outer size. -/
def checkHole (a : Aperture α) (hole : Hole α) : Except (ApertureDefect α) Unit :=
  if !hole.size.isNonneg then throw (.negativeHole a.number)
  else if a.size.width < hole.size.width || a.size.height < hole.size.height then
    throw (.holeTooLarge a.number hole.size a.size)
  else pure ()

/-- Checks size, then vertices, then the hole. -/
def check (a : Aperture α) : Except (ApertureDefect α) Unit :=
  if !a.size.isNonneg then throw (.negativeSize a.number)
  else if !a.shape.hasVertices then throw (.vertexCount a.number a.shape.vertexCount)
  else match a.hole with
    | some hole => a.checkHole hole
    | none => pure ()

/-- The aperture of a number, a shape and a hole, if it can be used. -/
def make (number : Nat) (shape : Shape α) (hole : Option (Hole α)) :
    Except (ApertureDefect α) (Aperture α) := do
  let aperture : Aperture α := { number, shape, hole }
  aperture.check
  return aperture

/-- Half the width and half the height. -/
def half (a : Aperture α) : Size α := ⟨a.size.width / 2.0, a.size.height / 2.0⟩

/-- The lesser of half the width and half the height. -/
def minHalf (a : Aperture α) : α := Scalar.min a.half.width a.half.height

/-- The width of a stroke drawn with the aperture: the diameter of what is round,
the lesser side of the others. -/
def strokeWidth (a : Aperture α) : α :=
  match a.shape with
  | .circle diameter => diameter
  | .rectangle xSize ySize => Scalar.min xSize ySize
  | .obround xSize ySize => Scalar.min xSize ySize
  | .polygon outerDiameter _ _ => outerDiameter

/-- The box that the aperture fills when it is stamped at a point. -/
def footprint (a : Aperture α) (p : Point α) : Box α := Box.around p a.half.width a.half.height

end Aperture

end BoardMill
