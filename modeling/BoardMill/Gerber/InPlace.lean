import BoardMill.Changing
import BoardMill.Gerber.Extent

/-! # Blocks in place

Blocks are carried out on one graphics state, and grow one box, in the order in which a
run checks and changes them.
-/

namespace BoardMill.Gerber

variable {α : Type} [Scalar α]

namespace State

/-- Moves the cursor. -/
def moveTo (target : Point α) : Changing (State α) Unit :=
  modify fun s => { s with cursor := target }

/-- Checks a block against the state and changes the state by it. -/
def carryOut (b : Located (Block α)) : Changing (State α) Unit := do
  match b.value with
  | .select number =>
    if ((← get).apertures.get? number).isNone then throw (.unknownAperture number b.line)
    modify fun s => { s with selected := some number }
  | .flash target =>
    if (← get).inRegion then throw (.invalidRegion b.line "flash inside a region")
    let _ ← Changing.check ((← get).require b.line)
    moveTo target
  | .move target => moveTo target
  | .interpolate _ target _ =>
    if !(← get).inRegion then
      let _ ← Changing.check ((← get).require b.line)
    moveTo target
  | .regionStart =>
    if (← get).inRegion then throw (.invalidRegion b.line "G36 inside a region")
    modify fun s => { s with inRegion := true }
  | .regionEnd =>
    if !(← get).inRegion then throw (.invalidRegion b.line "G37 without G36")
    modify fun s => { s with inRegion := false }
  | .polarity polarity => modify fun s => { s with polarity }
  | .units units => modify fun s => { s with units }
  | .format _ | .attribute .. => pure ()

end State

namespace Block

/-- Covers another box. -/
def coverBox (other : Box α) : Changing (Box α) Unit := modify (·.cover other)

/-- Grows the box by what a block draws, one footprint after the other, given the state
before the block. -/
def enlarge (b : Block α) (line : Nat) (s : State α) : Changing (Box α) Unit := do
  match b with
  | .flash target =>
    let aperture ← Changing.check (s.require line)
    coverBox ((aperture.footprint target).map s.toMm)
  | .interpolate mode target center =>
    let reach ← Changing.check (s.reach line)
    coverBox (.around s.position reach.endX reach.endY)
    coverBox (.around (s.pointToMm target) reach.endX reach.endY)
    match s.arc? mode target center with
    | some arc => forM arc.axisExtremes fun p => coverBox (.around p reach.side reach.side)
    | none => pure ()
  | _ => pure ()

end Block

end BoardMill.Gerber
