import BoardMill.Drill.Program
import BoardMill.GCode.Program

/-! # Drilling

Each step of a drill program becomes a fixed sequence of commands: a tool change
waits for the operator at the origin, and a hole is drilled with the spindle on
only while the tool is at its place.
-/

namespace BoardMill.Drill

open GCode (Command Run)

variable {α : Type} [Scalar α]

/-- The commands that change to a tool. -/
def changeCommands (machine : Machine α) (units : Units) (number : Nat) (tool : Tool α) :
    List (Command α) :=
  [.comment (.tool number tool.shape (units.toMm tool.size)), .rapidZ machine.changeZ, .home,
    .pause, .rapidZ machine.safeZ]

/-- The commands that drill a hole at a point of the machine. -/
def drillCommands (machine : Machine α) (target : Point α) : List (Command α) :=
  [.rapidZ machine.safeZ, .rapid target, .spindleOn machine.spindleSpeed,
    .plunge machine.drillZ machine.drillFeedRate, .rapidZ machine.safeZ, .spindleOff]

/-- The commands that put the tool away. -/
def unloadCommands (machine : Machine α) : List (Command α) :=
  [.rapidZ machine.changeZ, .spindleOff]

namespace Program

/-- The tool loaded behind a step and the commands of the step, given the tool loaded
before. -/
def step (p : Program α) (machine : Machine α) (place : Point α → Point α)
    (loaded : Option (Tool α)) : Step α → Except Fault (Option (Tool α) × List (Command α))
  | .change number => do
    let tool ← p.tool number
    return (some tool, changeCommands machine p.units number tool)
  | .drill hole =>
    match loaded with
    | none => throw .stepBeforeTool
    | some tool => pure (some tool, drillCommands machine (place (p.units.pointToMm hole)))
  | .unload => pure (none, unloadCommands machine)

/-- The run through steps, given the loaded tool. -/
def runFrom (p : Program α) (machine : Machine α) (place : Point α → Point α)
    (loaded : Option (Tool α)) : List (Step α) → Run α
  | [] => .ofCommands []
  | s :: rest =>
    match p.step machine place loaded s with
    | .error fault => .ofFault fault
    | .ok (loaded, commands) =>
      (Run.ofCommands commands).andThen (runFrom p machine place loaded rest)

/-- The machine program of a drill program up to its trailer. -/
def body (p : Program α) (machine : Machine α) (place : Point α → Point α) (title : String) :
    Run α :=
  (Run.ofCommands (GCode.preamble machine title)).andThen (p.runFrom machine place none p.steps)

end Program

end BoardMill.Drill
