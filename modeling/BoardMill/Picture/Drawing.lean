import BoardMill.Gerber.State
import BoardMill.Picture.Stamp

/-! # Drawing a document

Every block of a document leaves at most one mark: a stamp for a flash, a stroke for a
line or an arc, an area for a region. The stamp of an aperture is made at its first
flash and used again at the later ones.
-/

namespace BoardMill

/-- What a block leaves on a surface. Paths and contours are in millimetres. -/
inductive Mark (α : Type) where
  /-- A stamp with its upper left corner at a pixel. -/
  | stamp (stamp : Stamp α) (left top : Int)
  | stroke (rounded : Bool) (width : α) (path : List (Point α))
  | region (contours : List (List (Point α)))
  deriving BEq, Repr

/-- The contours of an open region. The last one can be extended. Everything is kept last
first. -/
structure Contours (α : Type) where
  reversed : List (List (Point α))
  deriving BEq, Repr

namespace Contours

variable {α : Type}

/-- No contours. -/
def empty : Contours α := ⟨[]⟩

/-- Begins a contour at a point. -/
def start (c : Contours α) (p : Point α) : Contours α := ⟨[p] :: c.reversed⟩

/-- Continues the last contour along a path that starts where the contour ends. If there
is no contour, the path begins one. -/
def extend (c : Contours α) (path : List (Point α)) : Contours α :=
  match c.reversed with
  | (p :: contour) :: rest => ⟨(path.tail.reverse ++ p :: contour) :: rest⟩
  | _ => ⟨path.reverse :: c.reversed⟩

/-- The contours in their order. -/
def toList (c : Contours α) : List (List (Point α)) := (c.reversed.map List.reverse).reverse

end Contours

/-- What was drawn so far: the marks with their polarity, last first, the stamps in the
order of their first use, how many of them were made, and how often one was put down and
used again. -/
structure Drawing (α : Type) where
  stamps : List (Stamp α)
  renders : Nat
  flashes : Nat
  reuses : Nat
  contours : Contours α
  marks : List (Gerber.Polarity × Mark α)
  deriving BEq, Repr

namespace Drawing

variable {α : Type}

/-- Before the first block. -/
def start : Drawing α where
  stamps := []
  renders := 0
  flashes := 0
  reuses := 0
  contours := .empty
  marks := []

/-- The stamp of an aperture, if it was made. -/
def stamp? (d : Drawing α) (number : Nat) : Option (Stamp α) :=
  d.stamps.find? (·.number == number)

/-- Adds a mark. -/
def mark (d : Drawing α) (polarity : Gerber.Polarity) (m : Mark α) : Drawing α :=
  { d with marks := (polarity, m) :: d.marks }

/-- Puts a stamp down so that its middle comes to lie at a point of the surface, as near
as whole pixels allow. -/
def put [Scalar α] (d : Drawing α) (polarity : Gerber.Polarity) (s : Stamp α) (at_ : Point α) :
    Drawing α :=
  let pixel (middle center : α) : Int :=
    Scalar.toInt (Scalar.round (Scalar.single (middle - center)))
  d.mark polarity (.stamp s (pixel at_.x s.center.x) (pixel at_.y s.center.y))

/-- Stamps an aperture at a point of the surface. -/
def flash [Numeral α] (d : Drawing α) (a : Aperture α) (pixelsPerMm unitScale : α)
    (polarity : Gerber.Polarity) (at_ : Point α) : Except Fault (Drawing α) := do
  let d := { d with flashes := d.flashes + 1 }
  match d.stamp? a.number with
  | some s => return { d with reuses := d.reuses + 1 }.put polarity s at_
  | none =>
    let s ← Stamp.ofAperture a pixelsPerMm unitScale
    return { d with stamps := d.stamps ++ [s], renders := d.renders + 1 }.put polarity s at_

end Drawing

/-- Only circles draw strokes with round ends. -/
def Shape.isRound {α : Type} : Shape α → Bool
  | circle _ => true
  | _ => false

namespace Gerber

variable {α : Type} [Numeral α]

/-- The path of an interpolation: the points of its arc, or a straight line. -/
def State.path (s : State α) (mode : Interpolation) (target : Point α)
    (center : Option (Point α)) : List (Point α) :=
  match s.arc? mode target center with
  | some arc => arc.points
  | none => [s.position, s.pointToMm target]

/-- Draws a block, given the state before it. -/
def Block.draw (options : PictureOptions α) (frame : Frame α) (b : Block α) (line : Nat)
    (s : State α) (d : Drawing α) : Except Fault (Drawing α) :=
  match b with
  | .flash target => do
    d.flash (← s.require line) options.scale s.units.scale s.polarity
      (frame.toPixels (s.pointToMm target))
  | .interpolate mode target center => do
    let path := s.path mode target center
    if s.inRegion then
      return { d with contours := d.contours.extend path }
    let aperture ← s.require line
    let width := s.toMm aperture.strokeWidth
    return d.mark s.polarity (.stroke aperture.shape.isRound width path)
  | .move target =>
    pure (if s.inRegion then { d with contours := d.contours.start (s.pointToMm target) } else d)
  | .regionStart => pure { d with contours := .empty }
  | .regionEnd =>
    pure { d.mark s.polarity (.region d.contours.toList) with contours := .empty }
  | .select _ | .polarity _ | .attribute .. | .format _ | .units _ => pure d

/-- Draws blocks from a state on. What was drawn is there also if a block fails. -/
def drawFrom (options : PictureOptions α) (frame : Frame α) (lastLine : Nat) (s : State α)
    (d : Drawing α) : List (Located (Block α)) → Drawing α × Except Fault Unit
  | [] => (d, s.finish lastLine)
  | b :: rest =>
    match b.value.draw options frame b.line s d with
    | .error fault => (d, .error fault)
    | .ok d =>
      match s.apply b with
      | .error fault => (d, .error fault)
      | .ok s => drawFrom options frame lastLine s d rest

/-- Draws a document. -/
def Document.draw (options : PictureOptions α) (frame : Frame α) (doc : Document α) :
    Drawing α × Except Fault Unit :=
  drawFrom options frame doc.lastLine (.start doc.apertures) .start doc.blocks

end Gerber

end BoardMill
