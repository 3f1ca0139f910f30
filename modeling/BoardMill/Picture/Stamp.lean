import BoardMill.Aperture.Outline
import BoardMill.Picture.Figure
import BoardMill.Picture.Surface

/-! # Stamps

A stamp is the picture of an aperture on a small surface of its own, with the aperture
in the middle. It is put onto a larger surface pixel on pixel.
-/

namespace BoardMill

/-- The picture of an aperture. Sizes are in the units of the document. -/
structure Stamp (α : Type) where
  number : Nat
  surface : Surface α
  outline : List (Point α)
  hole : Option (Hole α)
  deriving BEq, Repr

namespace Stamp

variable {α : Type} [Scalar α]

/-- The middle of a surface. -/
def middle (width height : Nat) : Point α := ⟨Scalar.ofNat width / 2.0, Scalar.ofNat height / 2.0⟩

/-- The middle of the stamp. -/
def center (s : Stamp α) : Point α := middle s.surface.width s.surface.height

/-- The stamp of an aperture on a surface of some size. -/
def ofSize (a : Aperture α) (scale : α) (width height : Nat) : Stamp α where
  number := a.number
  surface := ⟨width, height, ⟨scale, (middle width height).x, (middle width height).y⟩⟩
  outline := a.outline
  hole := a.hole

/-- The fault of an aperture that needs too many pixels. -/
def tooLarge {α : Type} [Numeral α] (a : Aperture α) (pixelsPerMm : α) : Fault :=
  .unrenderable <| s!"D{a.number}: {a.size.text} aperture is too large to render at " ++
    s!"{Numeral.plain pixelsPerMm} px/mm"

/-- The stamp of an aperture, given how many millimetres the units of the document have. -/
def ofAperture {α : Type} [Numeral α] (a : Aperture α) (pixelsPerMm unitScale : α) :
    Except Fault (Stamp α) :=
  let scale := Scalar.single (pixelsPerMm * unitScale)
  match Surface.sides? (a.size.width * scale) (a.size.height * scale) 2 with
  | some (width, height) => pure (ofSize a scale width height)
  | none => throw (tooLarge a pixelsPerMm)

/-- Whether a hole has a box in single precision. -/
def hasBox (hole : Hole α) : Bool :=
  hole.size.isNonneg && Scalar.single hole.size.width < singleLimit &&
    Scalar.single hole.size.height < singleLimit

/-- The hole, with the middle of the stamp at a point. -/
def holeFigure (s : Stamp α) (middle : Point α) (hole : Hole α) : Figure α :=
  let half (size : α) : α := Scalar.abs (s.surface.frame.scale * size) / 2.0
  match hole with
  | .circle diameter => .disc middle (half diameter)
  | .rectangle xSize ySize => .box (.around middle (half xSize) (half ySize))

/-- The aperture, with the upper left corner of the stamp at a point. It does not leave
the surface of the stamp. An outline that makes no path has no inside, and a hole without
a box is not cut. -/
def figure (s : Stamp α) (cutHole : Bool) (corner : Point α) : Figure α :=
  let frame : Box α :=
    { xMin := corner.x, xMax := corner.x + Scalar.ofNat s.surface.width
      yMin := corner.y, yMax := corner.y + Scalar.ofNat s.surface.height }
  let outline := s.outline.map fun p => corner.add (s.surface.frame.toPixels p)
  let contours := if Figure.isPath s.outline then [outline] else []
  let plain := Figure.both (.ofContours contours) (.box frame)
  match s.hole with
  | some hole =>
    if cutHole && hasBox hole then .minus plain (s.holeFigure (corner.add s.center) hole)
    else plain
  | none => plain

end Stamp

end BoardMill
