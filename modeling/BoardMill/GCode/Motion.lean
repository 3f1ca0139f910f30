import BoardMill.GCode.Program
import BoardMill.Gerber.State

/-! # Motions of a document

Each block of a document asks for at most one motion. How many commands a motion
takes depends on whether the tool is in the board: travelling needs it out, cutting
needs it in.
-/

namespace BoardMill.GCode

/-- What a block asks of the machine. Points are in millimetres. -/
inductive Motion (α : Type) where
  | note (remark : Remark α)
  | travel (target : Point α)
  | stamp (target : Point α)
  | cut (target : Point α)
  | arc (clockwise : Bool) (start target center : Point α)
  deriving BEq, Repr

variable {α : Type} [Scalar α]

/-- Puts the tool into the board, unless it is there. -/
def engage (machine : Machine α) (engaged : Bool) : List (Command α) :=
  if engaged then []
  else [.spindleOn machine.power, .plunge machine.cutZ machine.plungeFeedRate]

/-- Takes the tool out of the board, unless it is out. -/
def retract (machine : Machine α) (engaged : Bool) : List (Command α) :=
  if engaged then [.rapidZ machine.safeZ, .spindleOff] else []

namespace Motion

/-- The commands of a motion. `place` takes points of the board to points of the
machine. -/
def commands (machine : Machine α) (place : Point α → Point α) (engaged : Bool) :
    Motion α → List (Command α)
  | note remark => [.comment remark]
  | travel target => retract machine engaged ++ [.rapid (place target)]
  | stamp target =>
    retract machine engaged ++ [.rapidZ machine.safeZ, .rapid (place target)] ++
      engage machine false ++ retract machine true
  | cut target => engage machine engaged ++ [.cut (place target) machine.feedRate]
  | arc clockwise start target center =>
    let offset := ⟨(place center).x - (place start).x, (place center).y - (place start).y⟩
    engage machine engaged ++ [.arc clockwise (place target) offset machine.feedRate]

end Motion

end BoardMill.GCode

namespace BoardMill.Gerber

variable {α : Type} [Scalar α]

open GCode (Motion Command Run)

namespace Block

/-- The motion that a block asks for, given the state before it. An arc without a
radius is cut straight. -/
def motion? (b : Block α) (line : Nat) (s : State α) : Except Fault (Option (Motion α)) :=
  match b with
  | .select number =>
    -- Whether the number is known is checked when the block is carried out.
    pure ((s.apertures.get? number).map fun a => .note (.aperture number (s.toMm a.strokeWidth)))
  | .flash target => do
    let _ ← s.require line
    return some (.stamp (s.pointToMm target))
  | .move target => pure (some (.travel (s.pointToMm target)))
  | .interpolate mode target center => do
    if !s.inRegion then
      let _ ← s.require line
    match s.arc? mode target center, center with
    | some _, some c =>
      return some
        (.arc (mode == .clockwise) s.position (s.pointToMm target) (s.pointToMm c))
    | _, _ => return some (.cut (s.pointToMm target))
  | .regionStart => pure (some (.note .regionStart))
  | .regionEnd => pure (some (.note .regionEnd))
  | .polarity p => pure (some (.note (.polarity p)))
  | .format _ | .units _ | .attribute .. => pure none

/-- The commands of a block, given the state before it and whether the tool is in the
board. -/
def commands (machine : Machine α) (place : Point α → Point α) (engaged : Bool)
    (b : Block α) (line : Nat) (s : State α) : Except Fault (List (Command α)) := do
  match ← b.motion? line s with
  | some motion => return motion.commands machine place engaged
  | none => return []

end Block

namespace Document

/-- The run through blocks from a state on. Every block is turned into commands before
it is carried out. -/
def runFrom (machine : Machine α) (place : Point α → Point α) (lastLine : Nat)
    (engaged : Bool) (s : State α) : List (Located (Block α)) → Run α
  | [] => ⟨[], s.finish lastLine⟩
  | b :: rest =>
    match b.value.commands machine place engaged b.line s with
    | .error fault => .ofFault fault
    | .ok commands =>
      match s.apply b with
      | .error fault => ⟨commands, .error fault⟩
      | .ok s =>
        (Run.ofCommands commands).andThen
          (runFrom machine place lastLine (GCode.engagedAfter engaged commands) s rest)

/-- The program of a document up to its trailer. `engaged` tells whether the tool is
taken to be in the board at the start. -/
def body (machine : Machine α) (place : Point α → Point α) (engaged : Bool) (title : String)
    (d : Document α) : Run α :=
  let opening := GCode.preamble machine title ++ [.comment (.toolWidth machine.toolWidth)]
  (Run.ofCommands opening).andThen
    (runFrom machine place d.lastLine engaged (.start d.apertures) d.blocks)

end Document

end BoardMill.Gerber
