import BoardMill.Proofs.Drill.Directives
import BoardMill.Proofs.Drill.Stops

/-! # Where the holes of a drill file lie

A line for a hole is read with the digit counts of the directives above it, but the program
keeps one unit of length for all of its holes. The box and the machine program therefore take
every hole in the units that the file names last, above the hole or below.
-/

namespace BoardMill.Drill

open GCode (Command Sink linesOf)
open Outcome

variable {α : Type}

/-- The line of a hole leaves the units to the directives below it. -/
theorem unitsAfter_hole {before after : List (List Char)} {text : List Char}
    (hhole : isHoleLine text = true)
    (h : ∀ units ∈ after.filterMap units?, units = unitsAfter before) :
    unitsAfter (before ++ text :: after) = unitsAfter before := by
  have hnone : units? text = none := by
    obtain ⟨rest, rfl⟩ := List.head?_eq_some_iff.mp (eq_of_beq hhole)
    simp [units?]
  rw [unitsAfter_append, List.filterMap_cons_none hnone]
  cases hlast : (after.filterMap units?).getLast? with
  | none => rfl
  | some units => exact h units (List.mem_of_getLast? hlast)

namespace Program

/-- A line for a hole gives one hole, read with the digit counts of the directives above it. -/
theorem exists_hole_of_line [Scalar α] {text : List Char} {p : Program α}
    (h : ofText? text = .ok p) {before after : List (List Char)} {line : List Char}
    (hsplit : directives text = before ++ line :: after) (hline : isHoleLine line = true) :
    ∃ (hole : Point α) (earlier later : List (Step α)),
      hole? (digitsAfter before) line = some (.drill hole) ∧
        p.steps = earlier ++ .drill hole :: later ∧
        earlier.countP Step.isDrill = before.countP isHoleLine := by
  have hsteps := steps_of_ofText? h
  obtain ⟨last, hlast, -⟩ := ofText?_eq_ok_iff.mp h
  rw [hsplit] at hlast hsteps
  obtain ⟨r, next, hr, hnext, -⟩ := exists_of_foldlM_split hlast
  have hremembers := Reading.remembers_of_foldlM hr
  obtain ⟨s, hs⟩ := Option.isSome_iff_exists.mp ((Reading.heeds_of_line hnext).hole hline)
  obtain ⟨hole, rfl⟩ := exists_drill_of_hole? hs
  rw [hremembers.digits] at hs
  have hstep : (step? (digitsAfter before) line : Option (Step α)) = some (.drill hole) :=
    (step?_of_isHoleLine hline).trans hs
  refine ⟨hole, stepsFrom [] before, stepsFrom (before ++ [line]) after, hs, ?_, ?_⟩
  · rw [stepsFrom_append, List.nil_append, stepsFrom_cons, hstep] at hsteps
    exact hsteps
  · rw [← hremembers.steps, hremembers.holes]

end Program

/-- The holes of a drill file lie where their lines say with the digit counts of the directives
above, in the units that the directives of the whole file name last. There the box covers a box
around each of them, and there the machine program goes. These are the units that the directives
above a hole name last, if none of those below it names others. -/
theorem Program.stops_in_last_units {α : Type} [Numeral α] {text : List Char} {p : Program α}
    (hread : Program.ofText? text = .ok p) :
    p.stops.length = (directives text).countP isHoleLine ∧
    (∀ box, p.bounds = .ok box →
      p.holeBoxes.foldl Box.cover .empty = box ∧
        List.Forall₂ (fun b stop => ∃ radius, b = Box.around stop radius radius)
          p.holeBoxes p.stops) ∧
    (∀ machine place room title, ((Sink.start machine place room).drilling p title).1 = .ok () →
      ((Sink.start machine place room).drilling p title).2.tape.lines =
          (linesOf (p.commands machine place title)).map (·, true) ∧
        (p.commands machine place title).filterMap Command.target? = p.stops.map place) ∧
    ∀ before line after, directives text = before ++ line :: after → isHoleLine line = true →
      ∃ hole, hole? (digitsAfter before) line = some (.drill hole) ∧
        p.stops[before.countP isHoleLine]? =
          some ((unitsAfter (directives text)).pointToMm hole) ∧
        ((∀ units ∈ after.filterMap units?, units = unitsAfter before) →
          p.stops[before.countP isHoleLine]? = some ((unitsAfter before).pointToMm hole)) := by
  refine ⟨?_, fun box hbox => ?_, fun machine place room title hok => ?_,
    fun before line after hsplit hline => ?_⟩
  · rw [length_stops, holes_of_ofText? hread]
  · obtain ⟨hclean, hcover⟩ := bounds_eq_ok_iff.mp hbox
    exact ⟨hcover, holeBoxes_around hclean⟩
  · obtain ⟨-, htape, -⟩ := drilling_written machine place hok
    exact ⟨htape, p.filterMap_target?_commands machine place title⟩
  · obtain ⟨hole, earlier, later, hhole, hsteps, hcount⟩ :=
      exists_hole_of_line hread hsplit hline
    have hstop := getElem?_stops hsteps
    rw [hcount, units_of_ofText? hread] at hstop
    refine ⟨hole, hhole, hstop, fun hlater => ?_⟩
    rw [hstop, hsplit, unitsAfter_hole hline hlater]

/-- Two holes below unit lines of their own: the second one lies where its line says. -/
theorem Program.stops_in_last_units_metric :
    let text := "INCH\nT1C0.02\nT1\nX1.0Y2.0\nMETRIC\nX3.0Y4.0\nM30\nINCH\n".toList
    let before := ["INCH", "T1C0.02", "T1", "X1.0Y2.0", "METRIC"].map String.toList
    let line := "X3.0Y4.0".toList
    ∃ p : Program Float, Program.ofText? text = .ok p ∧ p.stops.length = 2 ∧
      directives text = before ++ line :: [] ∧ isHoleLine line = true ∧
      ∃ hole, hole? (digitsAfter before) line = some (.drill hole) ∧
        p.stops[1]? = some (Units.millimeters.pointToMm hole) := by
  intro text before line
  have hsplit : directives text = before ++ line :: [] := by decide +kernel
  have hline : isHoleLine line = true := by decide
  have hread : (Program.ofText? text : Except Fault (Program Float)).isOk = true := by
    decide +kernel
  obtain ⟨p, hp⟩ := isOk_iff.mp hread
  obtain ⟨hlength, -, -, hstops⟩ := Program.stops_in_last_units hp
  obtain ⟨hole, hhole, -, habove⟩ := hstops before line [] hsplit hline
  refine ⟨p, hp, ?_, hsplit, hline, hole, hhole, habove (by simp)⟩
  rw [hlength, hsplit]
  decide

/-- A hole whose line says one millimetre, since no directive above it names units, lies at one
inch: a directive below names inches. -/
theorem Program.stop_moved_by_later_units :
    let text := "T1C0.0\nT1\nX1.0Y1.0\nINCH\n".toList
    let before := ["T1C0.0", "T1"].map String.toList
    let line := "X1.0Y1.0".toList
    ∃ p : Program Float, Program.ofText? text = .ok p ∧
      directives text = before ++ line :: ["INCH".toList] ∧ unitsAfter before = .millimeters ∧
      hole? (digitsAfter before) line = some (.drill (⟨1.0, 1.0⟩ : Point Float)) ∧
      p.stops = [⟨25.4, 25.4⟩] ∧ p.bounds = .ok ⟨25.4, 25.4, 25.4, 25.4⟩ ∧
      p.stops ≠ [Units.millimeters.pointToMm ⟨1.0, 1.0⟩] := by
  intro text before line
  refine ⟨⟨.inches, ⟨[(1, ⟨'C', 0.0⟩)]⟩, [.change 1, .drill ⟨1.0, 1.0⟩]⟩, ?_, ?_, ?_, ?_, ?_, ?_, ?_⟩
  · rfl
  · decide +kernel
  · decide +kernel
  · rfl
  · rfl
  · rfl
  · intro hsame
    have hnear := congrArg (List.all · fun stop => decide (stop.x ≤ 1.0)) hsame
    exact absurd hnear (by decide +kernel)

end BoardMill.Drill
