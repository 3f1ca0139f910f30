import BoardMill.Proofs.Drill.Machining

/-! # The stops of drill programs

The box and the machine program of a drill program take its holes to the same points: the box
covers one box around each of them, and the program goes from one to the next.
-/

namespace BoardMill.Drill

open GCode (Command)

variable {α : Type}

def Step.hole? : Step α → Option (Point α)
  | drill hole => some hole
  | _ => none

theorem length_filterMap_hole? (steps : List (Step α)) :
    (steps.filterMap Step.hole?).length = steps.countP Step.isDrill := by
  rw [List.length_filterMap_eq_countP]
  congr 1
  funext s
  cases s <;> rfl

namespace Program

variable [Scalar α] {p : Program α}

/-- The holes of a program, in millimetres. -/
def stops (p : Program α) : List (Point α) := (p.steps.filterMap Step.hole?).map p.units.pointToMm

theorem length_stops (p : Program α) : p.stops.length = p.holes := by
  rw [stops, List.length_map, length_filterMap_hole?, holes]

theorem getElem?_stops {before after : List (Step α)} {hole : Point α}
    (hsplit : p.steps = before ++ .drill hole :: after) :
    p.stops[before.countP Step.isDrill]? = some (p.units.pointToMm hole) := by
  rw [stops, hsplit, List.filterMap_append, ← length_filterMap_hole?]
  simp [Step.hole?]

/-! ## Extent -/

theorem holeBoxesFrom_around {before steps : List (Step α)} (h : p.Clean (before ++ steps)) :
    List.Forall₂ (fun b stop => ∃ radius, b = Box.around stop radius radius)
      (p.holeBoxesFrom before steps) ((steps.filterMap Step.hole?).map p.units.pointToMm) := by
  induction steps generalizing before with
  | nil => exact .nil
  | cons s rest ih =>
      have hrest : p.Clean (before ++ [s] ++ rest) := by simpa using h
      rw [holeBoxesFrom_cons]
      cases s with
      | drill hole =>
          obtain ⟨tool, htool⟩ := h.exists_tool
          rw [htool]
          exact .cons ⟨p.radius tool, rfl⟩ (ih hrest)
      | change number => exact ih hrest
      | unload => exact ih hrest

/-- Every hole has a box around the point that it is taken to. -/
theorem holeBoxes_around (h : p.Clean p.steps) :
    List.Forall₂ (fun b stop => ∃ radius, b = Box.around stop radius radius)
      p.holeBoxes p.stops := by
  have hall : p.Clean ([] ++ p.steps) := h
  exact holeBoxesFrom_around hall

/-- The sides of the box of a drill program are numbers. -/
theorem numeric_of_bounds [OrderedScalar α] {box : Box α} (h : p.bounds = .ok box) :
    box.Numeric := by
  obtain ⟨-, rfl⟩ := bounds_eq_ok_iff.mp h
  exact Box.numeric_empty.foldl_cover _

/-! ## Commands -/

theorem filterMap_commandsFrom (machine : Machine α) (place : Point α → Point α)
    (before steps : List (Step α)) :
    (p.commandsFrom machine place before steps).filterMap Command.target? =
      ((steps.filterMap Step.hole?).map p.units.pointToMm).map place := by
  induction steps generalizing before with
  | nil => rfl
  | cons s rest ih =>
      rw [commandsFrom_cons, List.filterMap_append, ih]
      cases s with
      | change number => cases p.toolAfter (before ++ [.change number]) <;> rfl
      | drill hole => rfl
      | unload => rfl

/-- A drill program goes to its stops. -/
theorem filterMap_target?_commands {α : Type} [Numeral α] (p : Program α) (machine : Machine α)
    (place : Point α → Point α) (title : String) :
    (p.commands machine place title).filterMap Command.target? = p.stops.map place := by
  rw [commands, List.filterMap_append, List.filterMap_append, filterMap_commandsFrom machine place]
  exact List.append_nil _

end Program

end BoardMill.Drill
