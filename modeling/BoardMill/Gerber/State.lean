import BoardMill.Arc
import BoardMill.Fault
import BoardMill.Gerber.Document

/-! # Graphics state

What the blocks of a document have set so far: the current point and aperture, the
polarity, the units, and whether a region is open. Every block is checked against
the state before it changes it.
-/

namespace BoardMill.Gerber

/-- The state between two blocks. The cursor is kept in the units of the document. -/
structure State (α : Type) where
  apertures : ApertureTable α
  cursor : Point α
  selected : Option Nat
  polarity : Polarity
  units : Units
  inRegion : Bool
  deriving Repr

namespace State

variable {α : Type} [Scalar α]

/-- The state before the first block. -/
def start (apertures : ApertureTable α) : State α where
  apertures
  cursor := ⟨0.0, 0.0⟩
  selected := none
  polarity := .dark
  units := .millimeters
  inRegion := false

/-- A length of the document in millimetres. -/
def toMm (s : State α) (length : α) : α := s.units.toMm length

/-- A point of the document in millimetres. -/
def pointToMm (s : State α) (p : Point α) : Point α := s.units.pointToMm p

/-- The current point in millimetres. -/
def position (s : State α) : Point α := s.pointToMm s.cursor

/-- The aperture to draw with. -/
def current? (s : State α) : Option (Aperture α) := s.selected.bind s.apertures.get?

/-- The aperture that a flash or a stroke on a line draws with. -/
def require (s : State α) (line : Nat) : Except Fault (Aperture α) :=
  match s.current? with
  | some aperture => pure aperture
  | none => throw (.noApertureSelected line)

/-- Checks a block against the state and carries it out. -/
def apply (s : State α) (b : Located (Block α)) : Except Fault (State α) :=
  match b.value with
  | .select number =>
    match s.apertures.get? number with
    | none => throw (.unknownAperture number b.line)
    | some _ => pure { s with selected := some number }
  | .flash target => do
    if s.inRegion then throw (.invalidRegion b.line "flash inside a region")
    let _ ← s.require b.line
    return { s with cursor := target }
  | .move target => pure { s with cursor := target }
  | .interpolate _ target _ => do
    if !s.inRegion then
      let _ ← s.require b.line
    return { s with cursor := target }
  | .regionStart =>
    if s.inRegion then throw (.invalidRegion b.line "G36 inside a region")
    else pure { s with inRegion := true }
  | .regionEnd =>
    if s.inRegion then pure { s with inRegion := false }
    else throw (.invalidRegion b.line "G37 without G36")
  | .polarity polarity => pure { s with polarity }
  | .units units => pure { s with units }
  | .format _ | .attribute .. => pure s

/-- Checks that no region is open at the end of the document. -/
def finish (s : State α) (lastLine : Nat) : Except Fault Unit :=
  if s.inRegion then throw (.invalidRegion lastLine "region not closed before end of file")
  else pure ()

/-- The arc that an interpolation follows from the current point, if it has one: the
curve is an arc with a center, and the center is not the current point. -/
def arc? (s : State α) (mode : Interpolation) (target : Point α) (center : Option (Point α)) :
    Option (Arc α) :=
  match mode, center with
  | .linear, _ => none
  | _, none => none
  | .clockwise, some c => Arc.ofPoints? s.position (s.pointToMm target) (s.pointToMm c) true
  | .counterclockwise, some c =>
    Arc.ofPoints? s.position (s.pointToMm target) (s.pointToMm c) false

end State

end BoardMill.Gerber
