import BoardMill.Layer
import BoardMill.Proofs.Drill.Stops
import BoardMill.Proofs.Gerber.Merge
import BoardMill.Proofs.Gerber.Pass

/-! # Programs of layers

A layer that has bounds has a program. Whatever the layer holds, the program goes to its stops
one after the other: the points that its file goes to, in millimetres. Where they lie on the
machine is up to the shift alone.
-/

namespace BoardMill.GCode

variable {α : Type}

theorem filterMap_target?_filter (commands : List (Command α)) :
    (commands.filter Command.isPath).filterMap Command.target? =
      commands.filterMap Command.target? := by
  rw [List.filterMap_filter]
  congr 1
  funext c
  cases c <;> rfl

variable [Numeral α]

/-- How the coordinates of a point are written. -/
def coordinatesText (p : Point α) : List Char :=
  s!"X{Numeral.fixed 4 p.x} Y{Numeral.fixed 4 p.y}".toList

/-- The coordinates of the point that a command goes to. -/
def Command.coordinates? (c : Command α) : Option (List Char) := c.target?.map coordinatesText

/-- The coordinates of a command are written in its line. -/
theorem Command.coordinates_infix {c : Command α} {text : List Char}
    (h : c.coordinates? = some text) : text <:+: c.line := by
  obtain ⟨q, hq, rfl⟩ := Option.map_eq_some_iff.mp h
  cases c with
  | rapid target =>
      cases hq
      exact ⟨"G00 ".toList, [], by simp [coordinatesText, line, Command.text, toString]⟩
  | cut target feed =>
      cases hq
      exact ⟨"G01 ".toList, s!" F{Numeral.plain feed}".toList,
        by simp [coordinatesText, line, Command.text, toString]⟩
  | arc clockwise target offset feed =>
      cases hq
      refine ⟨(if clockwise then "G02 " else "G03 ").toList,
        s!" I{Numeral.fixed 4 offset.x} J{Numeral.fixed 4 offset.y} F{Numeral.plain feed}".toList, ?_⟩
      cases clockwise <;> simp [coordinatesText, line, Command.text, toString]
  | _ => cases hq

end BoardMill.GCode

namespace BoardMill.Gerber

open GCode (Command)

variable {α : Type} [Scalar α]

/-- The points that the blocks of a document go to, in millimetres. -/
def Document.stops (d : Document α) : List (Point α) :=
  (visitsFrom [] (d.blocks.map Located.value)).filterMap fun (before, b) =>
    b.target?.map (unitsAfter before).pointToMm

/-- The sides of the box of a document are numbers. -/
theorem Document.numeric_of_bounds [OrderedScalar α] {d : Document α} {box : Box α}
    (h : d.bounds = .ok box) : box.Numeric := by
  obtain ⟨parts, -, rfl⟩ := exists_parts_of_growFrom h
  exact Box.numeric_empty.foldl_cover _

/-- The program of a document goes to its stops. -/
theorem Document.filterMap_program {α : Type} [Numeral α] {machine : Machine α} {place : Point α → Point α}
    {engaged : Bool} {title : String} {d : Document α}
    (hend : (d.body machine place engaged title).ending = .ok ()) :
    ((d.body machine place engaged title).program machine).filterMap Command.target? =
      d.stops.map place := by
  rw [← GCode.filterMap_target?_filter, filter_program hend, path, List.filterMap_filterMap, stops,
    List.map_filterMap]
  congr 1
  funext ⟨before, b⟩
  dsimp only
  rw [Block.bind_pathCommand?, Option.map_map]
  rfl

end BoardMill.Gerber

namespace BoardMill.Layer

open GCode (Command Run Sink)
open Outcome

variable {α : Type} [Numeral α]

/-- The points that a layer goes to, in millimetres. -/
def stops (l : Layer α) : List (Point α) :=
  match l.data with
  | .gerber document => document.stops
  | .drill program => program.stops

def run (l : Layer α) (machine : Machine α) (place : Point α → Point α) : Run α :=
  match l.data with
  | .gerber document => document.body machine place false l.title
  | .drill program => program.body machine place l.title

/-- The commands of the program of a layer. -/
def commands (l : Layer α) (machine : Machine α) (place : Point α → Point α) : List (Command α) :=
  (l.run machine place).program machine

variable {l : Layer α} (machine : Machine α) (place : Point α → Point α)

/-- Writing a layer to a fresh sink is writing its run. -/
theorem write_start (room : Option Nat) :
    l.write (.start machine place room) = (Sink.start machine place room).complete (l.run machine place) := by
  unfold write run
  cases l.data <;> rfl

variable {box : Box α}

theorem ending_of_bounds (h : l.bounds = .ok box) : (l.run machine place).ending = .ok () := by
  unfold bounds at h
  unfold run
  cases hdata : l.data with
  | gerber document =>
      rw [hdata] at h
      exact Gerber.Document.ending_of_bounds h machine place false l.title
  | drill program =>
      rw [hdata] at h
      exact (Drill.Program.ending_eq_ok_iff machine place).mpr (Drill.Program.bounds_eq_ok_iff.mp h).1

theorem numeric_of_bounds [OrderedScalar α] (h : l.bounds = .ok box) : box.Numeric := by
  unfold bounds at h
  cases hdata : l.data with
  | gerber document =>
      rw [hdata] at h
      exact Gerber.Document.numeric_of_bounds h
  | drill program =>
      rw [hdata] at h
      exact Drill.Program.numeric_of_bounds h

/-- The program of a layer goes to its stops. -/
theorem filterMap_commands (hend : (l.run machine place).ending = .ok ()) :
    (l.commands machine place).filterMap Command.target? = l.stops.map place := by
  unfold commands run at *
  unfold stops
  cases hdata : l.data with
  | gerber document =>
      rw [hdata] at hend
      exact Gerber.Document.filterMap_program hend
  | drill program =>
      rw [hdata] at hend
      dsimp only
      rw [Drill.Program.body_program machine place hend]
      exact program.filterMap_target?_commands machine place l.title

/-- What the program of a layer says of its stops. -/
theorem filterMap_coordinates (hend : (l.run machine place).ending = .ok ()) :
    (l.commands machine place).filterMap Command.coordinates? =
      l.stops.map fun p => GCode.coordinatesText (place p) := by
  change (l.commands machine place).filterMap
    (fun c => c.target?.map GCode.coordinatesText) = _
  rw [← List.map_filterMap, filterMap_commands machine place hend, List.map_map]
  rfl

end BoardMill.Layer
