import BoardMill.Fault
import BoardMill.Units

/-! # Drill programs

A drill program is a table of tools and a list of steps: take a tool, drill a hole,
put the tool away. Lengths are in the units of the file.
-/

namespace BoardMill.Drill

/-- A tool: the letter of its shape, `C` for a round bit, and its size. -/
structure Tool (α : Type) where
  shape : Char
  size : α
  deriving BEq, Repr

/-- One step of a drill program. -/
inductive Step (α : Type) where
  | change (number : Nat)
  | drill (hole : Point α)
  | unload
  deriving BEq, Repr

/-- The tools of a program by number, in rising order. -/
structure ToolTable (α : Type) where
  entries : List (Nat × Tool α)
  deriving BEq, Repr

/-- Tools and steps of a drill file. -/
structure Program (α : Type) where
  units : Units
  tools : ToolTable α
  steps : List (Step α)
  deriving BEq, Repr

variable {α : Type}

namespace ToolTable

/-- The table without tools. -/
def empty : ToolTable α := ⟨[]⟩

/-- The tool of a number. -/
def get? (t : ToolTable α) (number : Nat) : Option (Tool α) := t.entries.lookup number

/-- Puts an entry in its place among entries in rising order. An entry of the same
number gives way. -/
def insertEntry (number : Nat) (tool : Tool α) : List (Nat × Tool α) → List (Nat × Tool α)
  | [] => [(number, tool)]
  | (n, t) :: rest =>
    if number < n then (number, tool) :: (n, t) :: rest
    else if number = n then (number, tool) :: rest
    else (n, t) :: insertEntry number tool rest

/-- The table with a tool under a number. -/
def insert (t : ToolTable α) (number : Nat) (tool : Tool α) : ToolTable α :=
  ⟨insertEntry number tool t.entries⟩

/-- How many tools there are. -/
def size (t : ToolTable α) : Nat := t.entries.length

end ToolTable

/-- Whether a step drills a hole. -/
def Step.isDrill : Step α → Bool
  | drill _ => true
  | _ => false

namespace Program

/-- The program without tools and steps. -/
def empty : Program α := ⟨.millimeters, .empty, []⟩

/-- The tool of a number. -/
def tool (p : Program α) (number : Nat) : Except Fault (Tool α) :=
  match p.tools.get? number with
  | some tool => pure tool
  | none => throw (.unknownTool number)

/-- How many holes are drilled. -/
def holes (p : Program α) : Nat := p.steps.countP Step.isDrill

/-- A program without steps is noticed. -/
def notices (p : Program α) : List Notice :=
  if p.steps.isEmpty then [⟨.warning, "Drill: file contains no tool changes or holes"⟩] else []

end Program

end BoardMill.Drill
