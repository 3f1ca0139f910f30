import BoardMill.Fault
import BoardMill.GCode.Command
import BoardMill.Machine

/-! # Program outlines

What all programs have in common: how they start and end, and what becomes of a
run that stops early, namely the commands up to there together with the fault.
-/

namespace BoardMill.GCode

variable {α : Type}

/-- The commands that a run asks for, and how it ends. -/
structure Run (α : Type) where
  commands : List (Command α)
  ending : Except Fault Unit

namespace Run

/-- A run that asks for some commands and ends well. -/
def ofCommands (commands : List (Command α)) : Run α := ⟨commands, .ok ()⟩

/-- A run that stops at once. -/
def ofFault (fault : Fault) : Run α := ⟨[], .error fault⟩

/-- A run and what follows it if it ends well. -/
def andThen (first : Run α) (next : Run α) : Run α :=
  match first.ending with
  | .ok _ => ⟨first.commands ++ next.commands, next.ending⟩
  | .error _ => first

end Run

/-- Title, setup, and a climb to the height of travel. -/
def preamble (machine : Machine α) (title : String) : List (Command α) :=
  [.comment (.title title), .setup, .rapidZ machine.safeZ]

/-- A climb to the height of travel, and the end. -/
def trailer (machine : Machine α) : List (Command α) :=
  [.rapidZ machine.safeZ, .spindleOff, .finish]

end BoardMill.GCode
