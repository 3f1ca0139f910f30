import BoardMill.Aperture

/-! # Outlines of apertures

The closed contour of each shape, centered on the origin. Curves are sampled: a
full circle by 64 points, the two caps of an obround by 16 segments each.
-/

namespace BoardMill

variable {α : Type} [Scalar α]

/-- An obround is two half circles on its shorter sides, joined by two straight
edges. -/
structure Obround (α : Type) where
  capRadius : α
  edgeLength : α
  /-- The caps stand left and right, as they do for equal sides. -/
  horizontal : Bool
  deriving BEq, Repr

namespace Obround

/-- The obround that fills a width and a height. -/
def ofSize (xSize ySize : α) : Obround α where
  capRadius := Scalar.min xSize ySize / 2.0
  edgeLength := Scalar.abs (xSize - ySize)
  horizontal := ySize ≤ xSize

/-- The angles of a half circle from a first one on. -/
def capAngles (first : α) (segments : Nat) : List α :=
  (List.range (segments + 1)).map fun k =>
    first + Scalar.pi * Scalar.ofNat k / Scalar.ofNat segments

/-- The contour, counter-clockwise, with the same number of segments in both caps. -/
def outline (o : Obround α) (segments : Nat) : List (Point α) :=
  let r := o.capRadius
  let offset := o.edgeLength / 2.0
  if o.horizontal then
    ((capAngles (-Scalar.pi / 2.0) segments).map fun a =>
      ⟨offset + r * Scalar.cos a, r * Scalar.sin a⟩) ++
    (capAngles (Scalar.pi / 2.0) segments).map fun a =>
      ⟨-offset + r * Scalar.cos a, r * Scalar.sin a⟩
  else
    ((capAngles 0.0 segments).map fun a =>
      ⟨r * Scalar.cos a, offset + r * Scalar.sin a⟩) ++
    (capAngles Scalar.pi segments).map fun a =>
      ⟨r * Scalar.cos a, -offset + r * Scalar.sin a⟩

end Obround

/-- The corners of a regular polygon, the first one in a given direction. -/
def regularPolygon (radius : α) (corners : Nat) (rotation : α) : List (Point α) :=
  (List.range corners).map fun k =>
    let angle := rotation + 2.0 * Scalar.pi * Scalar.ofNat k / Scalar.ofNat corners
    ⟨radius * Scalar.cos angle, radius * Scalar.sin angle⟩

/-- The four corners of a rectangle. -/
def rectangleCorners (halfX halfY : α) : List (Point α) :=
  [⟨-halfX, -halfY⟩, ⟨halfX, -halfY⟩, ⟨halfX, halfY⟩, ⟨-halfX, halfY⟩]

namespace Aperture

/-- Points that stand for a full circle. -/
def circlePoints : Nat := 64

/-- The outer contour. -/
def outline (a : Aperture α) : List (Point α) :=
  match a.shape with
  | .circle diameter => regularPolygon (diameter / 2.0) circlePoints 0.0
  | .rectangle xSize ySize => rectangleCorners (xSize / 2.0) (ySize / 2.0)
  | .obround xSize ySize => (Obround.ofSize xSize ySize).outline (circlePoints / 4)
  | .polygon outerDiameter vertices rotation =>
    regularPolygon (outerDiameter / 2.0) vertices (Scalar.ofDegrees rotation)

end Aperture

end BoardMill
