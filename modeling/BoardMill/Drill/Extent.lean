import BoardMill.Box
import BoardMill.Drill.Program

/-! # Extent of a drill program

The box of all holes in millimetres, each as wide as the tool that drills it.
-/

namespace BoardMill.Drill

variable {α : Type} [Scalar α]

namespace Program

/-- The radius of the holes that a tool drills, in millimetres. -/
def radius (p : Program α) (tool : Tool α) : α := p.units.toMm tool.size / 2.0

/-- Grows a box by the holes of the steps, given the radius of the loaded tool. -/
def growFrom (p : Program α) (radius : Option α) (box : Box α) :
    List (Step α) → Except Fault (Box α)
  | [] => pure box
  | .change number :: rest => do
    let tool ← p.tool number
    growFrom p (some (p.radius tool)) box rest
  | .drill hole :: rest =>
    match radius with
    | none => throw .stepBeforeTool
    | some r => growFrom p radius (box.cover (.around (p.units.pointToMm hole) r r)) rest
  | .unload :: rest => growFrom p none box rest

/-- The box of all holes, in millimetres. -/
def bounds (p : Program α) : Except Fault (Box α) := p.growFrom none .empty p.steps

end Program

end BoardMill.Drill
