import BoardMill.Scalar

/-! # Machine parameters

Heights and feeds of the machine. Lengths are in millimetres, feeds in millimetres
per minute.
-/

namespace BoardMill

/-- How the machine is to be driven. -/
structure Machine (α : Type) where
  /-- Feed of the tool when it cuts. -/
  feedRate : α
  /-- Feed of the tool when it goes down to cut. -/
  plungeFeedRate : α
  /-- Nominal width of the tool, only told in a comment. -/
  toolWidth : α
  /-- Speed of the spindle, or power of the laser, when it cuts. -/
  power : Nat
  /-- Height at which the tool can travel. -/
  safeZ : α
  /-- Height at which the tool cuts. -/
  cutZ : α
  /-- Height at which a tool can be changed. -/
  changeZ : α
  /-- Height of the bottom of a hole. -/
  drillZ : α
  /-- Feed of the tool when it drills. -/
  drillFeedRate : α
  /-- Speed of the spindle when it drills. -/
  spindleSpeed : Nat
  deriving BEq, Repr

namespace Machine

variable {α : Type} [Scalar α]

/-- The parameters that apply where nothing else is said. -/
def default : Machine α where
  feedRate := 300.0
  plungeFeedRate := 100.0
  toolWidth := 0.2
  power := 10
  safeZ := 1.0
  cutZ := -0.1
  changeZ := 15.0
  drillZ := -3.0
  drillFeedRate := 20.0
  spindleSpeed := 10000

instance : Inhabited (Machine α) := ⟨default⟩

end Machine

end BoardMill
