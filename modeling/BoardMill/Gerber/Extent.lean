import BoardMill.Gerber.State

/-! # Extent of a document

The box of everything that a document draws, in millimetres: the footprints of its
flashes, and for every line and arc the reach of the stroke around its ends and
around the outermost points of the arc. Inside a region only the contour counts.
-/

namespace BoardMill.Gerber

variable {α : Type} [Scalar α]

/-- How far a stroke reaches beyond its path: half the width and height of the
aperture at the ends of the path, half the width of the stroke elsewhere. -/
structure Reach (α : Type) where
  endX : α
  endY : α
  side : α
  deriving Repr

namespace State

/-- The reach of what an interpolation on a line draws. -/
def reach (s : State α) (line : Nat) : Except Fault (Reach α) :=
  if s.inRegion then pure ⟨0.0, 0.0, 0.0⟩
  else do
    let aperture ← s.require line
    return ⟨s.toMm aperture.half.width, s.toMm aperture.half.height,
      s.toMm (aperture.strokeWidth / 2.0)⟩

end State

namespace Block

/-- The boxes that a block needs, given the state before it. -/
def footprints (b : Block α) (line : Nat) (s : State α) : Except Fault (List (Box α)) :=
  match b with
  | .flash target => do
    let aperture ← s.require line
    return [(aperture.footprint target).map s.toMm]
  | .interpolate mode target center => do
    let reach ← s.reach line
    let extremes := ((s.arc? mode target center).map Arc.axisExtremes).getD []
    return Box.around s.position reach.endX reach.endY
      :: Box.around (s.pointToMm target) reach.endX reach.endY
      :: extremes.map fun p => Box.around p reach.side reach.side
  | _ => pure []

/-- Grows a box by what a block draws, given the state before it. -/
def grow (b : Block α) (line : Nat) (s : State α) (box : Box α) : Except Fault (Box α) := do
  return (← b.footprints line s).foldl Box.cover box

end Block

namespace Document

/-- Grows a box by the blocks from a state on. The last line is the one of a region
that stays open. -/
def growFrom (lastLine : Nat) (s : State α) (box : Box α) :
    List (Located (Block α)) → Except Fault (Box α)
  | [] => do
    s.finish lastLine
    return box
  | b :: rest => do
    let box ← b.value.grow b.line s box
    let s ← s.apply b
    growFrom lastLine s box rest

/-- The box of everything that a document draws, in millimetres. -/
def bounds (d : Document α) : Except Fault (Box α) :=
  growFrom d.lastLine (.start d.apertures) .empty d.blocks

end Document

end BoardMill.Gerber
