import BoardMill.Box
import BoardMill.Picture.PixelRow

/-! # Figures

Parts of a surface: areas inside contours, discs and boxes, and what is made of them.
A figure has the pixels whose middles lie in it, row by row. A stroke is a list of
figures, one for each segment, joint and end.
-/

namespace BoardMill

/-- A part of a surface. -/
inductive Figure (α : Type) where
  /-- What closed contours wind around an odd number of times, given all of their edges. -/
  | area (edges : List (Point α × Point α))
  | disc (center : Point α) (radius : α)
  | box (box : Box α)
  | both (first second : Figure α)
  | minus (figure hole : Figure α)
  deriving Repr

variable {α : Type} [Scalar α]

/-- The greatest number of single precision. -/
def singleLimit : α := 340282346638528859811704183484516925440.0

namespace Point

/-- The point at an offset. -/
def add (p q : Point α) : Point α := ⟨p.x + q.x, p.y + q.y⟩

/-- The offset of a point from another one. -/
def sub (p q : Point α) : Point α := ⟨p.x - q.x, p.y - q.y⟩

/-- An offset multiplied by a factor. -/
def times (factor : α) (p : Point α) : Point α := ⟨factor * p.x, factor * p.y⟩

/-- The product of lengths and the cosine of the angle between two offsets. -/
def dot (p q : Point α) : α := p.x * q.x + p.y * q.y

/-- The product of lengths and the sine of the angle from one offset to another. -/
def cross (p q : Point α) : α := p.x * q.y - p.y * q.x

/-- The offset turned by a right angle. -/
def normal (p : Point α) : Point α := ⟨-p.y, p.x⟩

/-- The offset of length one in the same direction. -/
def unit (p : Point α) : Point α := times (1.0 / Scalar.sqrt (dot p p)) p

/-- The point in single precision. -/
def single (p : Point α) : Point α := ⟨Scalar.single p.x, Scalar.single p.y⟩

/-- Whether both coordinates are finite. -/
def isFinite (p : Point α) : Bool := Scalar.isFinite p.x && Scalar.isFinite p.y

end Point

namespace Figure

/-- The edges of a closed contour, the last one back to its first point. -/
def edges (contour : List (Point α)) : List (Point α × Point α) :=
  contour.zip (contour.drop 1 ++ contour.take 1)

/-- What contours wind around an odd number of times. -/
def ofContours (contours : List (List (Point α))) : Figure α := .area (contours.flatMap edges)

/-- The middle of a pixel along an axis. -/
def pixelMiddle (n : Nat) : α := Scalar.ofNat n + 0.5

/-- The first pixel whose middle is not below a place on an axis. -/
def pixelFrom (x : α) : Nat := Scalar.toNat (Scalar.ceil (x - 0.5))

/-- The pixels behind an edge, in a row whose middle is at a height. An edge that does not
reach the height has none. -/
def pixelsBehind (width : Nat) (height : α) (a b : Point α) : PixelRow :=
  if (a.y ≤ height && height < b.y) || (b.y ≤ height && height < a.y) then
    .onward width (pixelFrom (a.x + (height - a.y) * (b.x - a.x) / (b.y - a.y)))
  else .empty

/-- The pixels from one place on an axis to another. -/
def pixelsBetween (width : Nat) (left right : α) : PixelRow :=
  .between width (pixelFrom left) (pixelFrom right)

/-- The pixels of a figure in a row whose middle is at a height. -/
def pixels (width : Nat) (height : α) : Figure α → PixelRow
  | area edges =>
    edges.foldl (fun row e => row ^^^ pixelsBehind width height e.1 e.2) .empty
  | disc center radius =>
    let square := Scalar.sq radius - Scalar.sq (height - center.y)
    if 0.0 < square then
      let half := Scalar.sqrt square
      pixelsBetween width (center.x - half) (center.x + half)
    else .empty
  | box b =>
    if b.yMin < height && height < b.yMax then pixelsBetween width b.xMin b.xMax else .empty
  | both first second => first.pixels width height &&& second.pixels width height
  | minus figure hole => (figure.pixels width height).without (hole.pixels width height)

/-- A box that the figure does not leave. -/
def reach : Figure α → Box α
  | area edges => edges.foldl (fun box e => box.cover (.ofPoint e.1)) .empty
  | disc center radius => .around center radius radius
  | box b => b
  | both first _ => first.reach
  | minus figure _ => figure.reach

/-! ## Paths -/

/-- The box around points in single precision. -/
def pathBox (points : List (Point α)) : Box α :=
  points.foldl (fun box p => box.cover (.ofPoint p.single)) .empty

/-- Whether points make a path. There have to be two of them, all have to be finite, in single
precision too, and no side of the box around them may be as long as the greatest number. -/
def isPath (points : List (Point α)) : Bool :=
  2 ≤ points.length && points.all (fun p => p.isFinite && p.single.isFinite) &&
    (pathBox points).width < singleLimit && (pathBox points).height < singleLimit

/-! ## Strokes -/

/-- A path without the points that repeat the one before. -/
def withoutRepeats : List (Point α) → List (Point α)
  | [] => []
  | [p] => [p]
  | p :: q :: rest =>
    if p.x == q.x && p.y == q.y then withoutRepeats (p :: rest)
    else p :: withoutRepeats (q :: rest)
termination_by path => path.length

/-- The band around a segment, longer than it by an amount in front and behind. -/
def band (half before behind : α) (a b : Point α) : Figure α :=
  let u := (b.sub a).unit
  let a := a.sub (u.times before)
  let b := b.add (u.times behind)
  let n := u.normal.times half
  ofContours [[a.add n, b.add n, b.sub n, a.sub n]]

/-- The greatest length of a pointed joint, measured in widths of the stroke. -/
def pointLimit : α := 4.0

/-- A pointed joint, cut off if it were too long. -/
def joint (half : α) (a b c : Point α) : Figure α :=
  let u := (b.sub a).unit
  let v := (c.sub b).unit
  let outward := if 0.0 < Point.cross u v then -half else half
  let m := u.normal.times outward
  let n := v.normal.times outward
  let cosine := Point.dot u v
  let tip :=
    if 2.0 / Scalar.sq pointLimit ≤ 1.0 + cosine then
      [b.add ((m.add n).times (1.0 / (1.0 + cosine)))]
    else []
  ofContours [b :: b.add m :: tip ++ [b.add n]]

/-- The bands and joints of a stroke with square ends. `before` is by how much the first
band is longer in front. -/
def squareStroke (half before : α) : List (Point α) → List (Figure α)
  | a :: b :: c :: rest =>
    band half before 0.0 a b :: joint half a b c :: squareStroke half 0.0 (b :: c :: rest)
  | [a, b] => [band half before half a b]
  | _ => []

/-- The bands and discs of a stroke with round ends. -/
def roundStroke (half : α) : List (Point α) → List (Figure α)
  | a :: b :: rest => disc a half :: band half 0.0 0.0 a b :: roundStroke half (b :: rest)
  | [a] => [disc a half]
  | [] => []

/-- The figures of a stroke along a path. A path of a single point makes a dot. -/
def stroke (rounded : Bool) (half : α) (path : List (Point α)) : List (Figure α) :=
  match withoutRepeats path with
  | [] => []
  | [a] => if rounded then [disc a half] else [box (.around a half half)]
  | path => if rounded then roundStroke half path else squareStroke half half path

end Figure

end BoardMill
