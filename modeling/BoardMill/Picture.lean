import BoardMill.Gerber.Extent
import BoardMill.Picture.Drawing

/-! # Pictures

The picture of a document shows its copper. A pixel is copper if the last mark that
covers its middle was dark. Contours of fewer than three points fill nothing, and neither
do points that are too far apart for single precision.
-/

namespace BoardMill

/-- A drawing on a surface. -/
structure Picture (α : Type) where
  bounds : Box α
  surface : Surface α
  cutHoles : Bool
  drawing : Drawing α
  deriving Repr

/-- A figure that is laid down or taken away, and a box that it does not leave. -/
structure Paint (α : Type) where
  isCopper : Bool
  figure : Figure α
  reach : Box α
  deriving Repr

/-- Whether a contour has an inside to fill. -/
def isFilled {α : Type} (contour : List (Point α)) : Bool := 3 ≤ contour.length

variable {α : Type} [Scalar α]

/-- The figures of a mark on a surface. Points that make no path have none, and neither has
a stroke whose width is not finite in single precision. -/
def Mark.figures (frame : Frame α) (cutHoles : Bool) : Mark α → List (Figure α)
  | stamp s left top => [s.figure cutHoles ⟨ofInt left, ofInt top⟩]
  | stroke rounded width path =>
    if Figure.isPath path && Scalar.isFinite (Scalar.single width) then
      Figure.stroke rounded (Scalar.abs (frame.scale * width) / 2.0) (path.map frame.toPixels)
    else []
  | region contours =>
    let filled := contours.filter isFilled
    if Figure.isPath filled.flatten then
      [.ofContours (filled.map fun c => c.map frame.toPixels)]
    else []
where
  ofInt (n : Int) : α := if n < 0 then -Scalar.ofNat n.natAbs else Scalar.ofNat n.natAbs

namespace Paint

/-- The paint of a figure. -/
def ofFigure (isCopper : Bool) (figure : Figure α) : Paint α := ⟨isCopper, figure, figure.reach⟩

/-- Whether there may be painted points between two heights. -/
def meets (low high : α) (paint : Paint α) : Bool :=
  paint.reach.yMin ≤ high && low ≤ paint.reach.yMax

/-- The copper of a row behind one more paint. -/
def onRow (width : Nat) (height : α) (row : PixelRow) (paint : Paint α) : PixelRow :=
  if paint.meets height height then
    let pixels := paint.figure.pixels width height
    if paint.isCopper then row ||| pixels else row.without pixels
  else row

/-- The pixels of a row that are copper in the end, given the paints in their order. -/
def row (width : Nat) (paints : List (Paint α)) (y : Nat) : PixelRow :=
  paints.foldl (onRow width (Figure.pixelMiddle y)) .empty

/-- How many rows are made together. -/
def rowGroup : Nat := 16

/-- Rows from one on, so many. Paints that meet none of them are left out beforehand. -/
def rowsFrom (width : Nat) (paints : List (Paint α)) (first count : Nat) : List PixelRow :=
  let low := Figure.pixelMiddle first
  let high := Figure.pixelMiddle (first + count - 1)
  (List.range' first count).map (row width (paints.filter (meets low high)))

/-- All rows, from the top down. -/
def rows (width height : Nat) (paints : List (Paint α)) : List PixelRow :=
  (List.range ((height + rowGroup - 1) / rowGroup)).flatMap fun k =>
    rowsFrom width paints (rowGroup * k) (Nat.min rowGroup (height - rowGroup * k))

end Paint

/-- The paint that shows a stamp alone. -/
def Stamp.paint (s : Stamp α) (cutHole : Bool) : Paint α :=
  .ofFigure true (s.figure cutHole ⟨0.0, 0.0⟩)

namespace Picture

/-- The paints of the picture in their order. -/
def paints (p : Picture α) : List (Paint α) :=
  p.drawing.marks.reverse.flatMap fun (polarity, mark) =>
    (mark.figures p.surface.frame p.cutHoles).map (.ofFigure (polarity = .dark))

/-- The rows of pixels that are copper. -/
def rows (p : Picture α) : List PixelRow := Paint.rows p.surface.width p.surface.height p.paints

/-- Whether a pixel is copper, if there is such a pixel. Pixels are counted row by row, so
that columns beyond the right edge are those of the rows below. -/
def pixel? (p : Picture α) (x y : Nat) : Option Bool :=
  let width := p.surface.width
  let number := y * width + x
  if number < width * p.surface.height then
    some ((Paint.row width p.paints (number / width)).contains (number % width))
  else none

/-- How many stamps were made. -/
def renders (p : Picture α) : Nat := p.drawing.renders

end Picture

/-- The picture of a document. -/
def Gerber.Document.picture {α : Type} [Numeral α] (doc : Gerber.Document α)
    (options : PictureOptions α) : Except Fault (Picture α) := do
  let bounds ← doc.bounds
  let surface ← Surface.ofBox bounds options
  match doc.draw options surface.frame with
  | (drawing, .ok _) => return { bounds, surface, cutHoles := options.cutHoles, drawing }
  | (_, .error fault) => throw fault

end BoardMill
