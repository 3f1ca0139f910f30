import BoardMill.Scalar

/-! # Bounding boxes

A box holds the least and the greatest coordinates of what it bounds. The empty
box is inverted, from infinity down to minus infinity, so that covering anything
starts from it.
-/

namespace BoardMill

/-- A box with sides along the axes. -/
structure Box (α : Type) where
  xMin : α
  xMax : α
  yMin : α
  yMax : α
  deriving BEq, Repr

namespace Box

variable {α : Type} [Scalar α]

/-- The box of nothing. -/
def empty : Box α :=
  ⟨Scalar.infinity, -Scalar.infinity, Scalar.infinity, -Scalar.infinity⟩

/-- The box that covers two. -/
def cover (b c : Box α) : Box α where
  xMin := Scalar.min b.xMin c.xMin
  xMax := Scalar.max b.xMax c.xMax
  yMin := Scalar.min b.yMin c.yMin
  yMax := Scalar.max b.yMax c.yMax

/-- The box of one point. -/
def ofPoint (p : Point α) : Box α := ⟨p.x, p.x, p.y, p.y⟩

/-- The box that reaches a distance from a point along each axis. -/
def around (p : Point α) (halfX halfY : α) : Box α :=
  ⟨p.x - halfX, p.x + halfX, p.y - halfY, p.y + halfY⟩

/-- All four sides under a function. -/
def map (f : α → α) (b : Box α) : Box α := ⟨f b.xMin, f b.xMax, f b.yMin, f b.yMax⟩

/-- A box is empty if it is inverted along an axis. -/
def isEmpty (b : Box α) : Bool := b.xMax < b.xMin || b.yMax < b.yMin

/-- Extent along the first axis, zero for an empty box. -/
def width (b : Box α) : α := if b.isEmpty then 0.0 else b.xMax - b.xMin

/-- Extent along the second axis, zero for an empty box. -/
def height (b : Box α) : α := if b.isEmpty then 0.0 else b.yMax - b.yMin

/-- The corner of the least coordinates. -/
def minCorner (b : Box α) : Point α := ⟨b.xMin, b.yMin⟩

/-- The point that goes to the origin: the corner of the least coordinates, or the
origin itself for an empty box. -/
def anchor (b : Box α) : Point α := if b.isEmpty then ⟨0.0, 0.0⟩ else b.minCorner

/-- The shift that takes the corner of the least coordinates to the origin. -/
def toOrigin (b : Box α) (p : Point α) : Point α := ⟨p.x - b.anchor.x, p.y - b.anchor.y⟩

end Box

end BoardMill
