import BoardMill.Proofs.Drill.Directives
import BoardMill.Proofs.Drill.Stops
import BoardMill.Proofs.Gerber.Placement

/-! # Where drill programs land

In exact arithmetic the box of a drill program holds every hole that is drilled with a tool
whose size is not negative, and the shift of the box to the origin takes the hole into the frame
of the box. The reader lets a minus sign into the size of a tool. Around the hole of such a tool
the box is inverted, and a box that stays inverted shifts nothing.
-/

namespace BoardMill.Drill

open GCode (Command)
open Gerber (visitsFrom visitsFrom_append)
open Outcome

/-! ## What programs that were read are like -/

variable {K : Type} [Field K] [LinearOrder K] [IsStrictOrderedRing K] [FloorRing K] [Analytic K]

theorem isFinite_of_definition? {α : Type} [Scalar α] {text : List Char} {number : Nat}
    {tool : Tool α} (h : definition? text = some (number, tool)) :
    Scalar.isFinite tool.size = true := by
  unfold definition? at h
  split at h
  · split at h
    · obtain ⟨n, -, h⟩ := Option.bind_eq_some_iff.mp h
      dsimp only at h
      split at h
      · cases h
      split at h
      · cases h
      obtain ⟨size, hsize, h⟩ := Option.bind_eq_some_iff.mp h
      cases h
      exact Decimal.isFinite_of_readPlain? hsize
    · cases h
  · cases h

theorem finite_of_hole? {digits : DigitCount} {text : List Char} {hole : Point (Exact K)}
    (h : hole? digits text = some (.drill hole)) : hole.Finite := by
  unfold hole? at h
  split at h
  · obtain ⟨⟨x, y⟩, -, h⟩ := Option.bind_eq_some_iff.mp h
    obtain ⟨x, hx, h⟩ := Option.bind_eq_some_iff.mp h
    obtain ⟨y, hy, h⟩ := Option.bind_eq_some_iff.mp h
    cases h
    exact ⟨Exact.isFinite_of_readFilled? hx, Exact.isFinite_of_readFilled? hy⟩
  · cases h

namespace Program

/-- The holes and the sizes of the tools of a program are finite. -/
structure Sound {α : Type} [Scalar α] (p : Program α) : Prop where
  holes : ∀ hole, .drill hole ∈ p.steps → hole.Finite
  tools : ∀ number tool, p.tools.get? number = some tool → Scalar.isFinite tool.size = true

theorem sound_of_ofText? {text : List Char} {p : Program (Exact K)} (h : ofText? text = .ok p) :
    p.Sound where
  holes hole hmem := by
    rw [steps_of_ofText? h] at hmem
    obtain ⟨⟨before, line⟩, -, hstep⟩ := List.mem_filterMap.mp hmem
    exact finite_of_hole? (hole?_of_step? hstep)
  tools number tool hget := by
    rw [get?_of_ofText? h] at hget
    obtain ⟨line, -, hdefinition⟩ := exists_definition_of_toolOf? hget
    exact isFinite_of_definition? hdefinition

variable {p : Program (Exact K)} {box : Box (Exact K)}

theorem nonneg_radius {tool : Tool (Exact K)} (hfinite : Scalar.isFinite tool.size = true)
    (hsize : 0.0 ≤ tool.size) : (p.radius tool).Nonneg := by
  obtain ⟨x, hx, hlength⟩ := p.units.nonneg_toMm (Exact.nonneg_of_le hfinite hsize)
  rw [radius, hlength, Exact.two_eq, Exact.number_div two_ne_zero]
  exact ⟨x / 2, by positivity, rfl⟩

theorem mem_holeBoxes {α : Type} [Scalar α] {p : Program α} {before after : List (Step α)}
    {hole : Point α} {tool : Tool α} (hsplit : p.steps = before ++ .drill hole :: after)
    (htool : p.toolAfter before = some tool) :
    Box.around (p.units.pointToMm hole) (p.radius tool) (p.radius tool) ∈ p.holeBoxes := by
  rw [holeBoxes, hsplit, holeBoxesFrom, visitsFrom_append, List.filterMap_append]
  simp [visitsFrom, holeBox?, htool]

/-- The box of a sound program holds the holes of tools whose sizes are not negative. -/
theorem Sound.bounds_holds (h : p.Sound) (hbounds : p.bounds = .ok box)
    {before after : List (Step (Exact K))} {hole : Point (Exact K)} {tool : Tool (Exact K)}
    (hsplit : p.steps = before ++ .drill hole :: after)
    (htool : p.toolAfter before = some tool) (hsize : 0.0 ≤ tool.size) :
    (p.units.pointToMm hole).Finite ∧ box.Holds (p.units.pointToMm hole) := by
  obtain ⟨number, -, hget⟩ := Option.bind_eq_some_iff.mp htool
  have hradius : (p.radius tool).Nonneg := nonneg_radius (h.tools number tool hget) hsize
  have hfinite := p.units.finite_pointToMm (h.holes hole (by simp [hsplit]))
  have haround := Box.holds_around hfinite hradius hradius
  obtain ⟨-, rfl⟩ := bounds_eq_ok_iff.mp hbounds
  obtain ⟨-, -, hcontains⟩ := Box.foldl_cover_contains Box.numeric_empty p.holeBoxes
  exact ⟨hfinite, (hcontains _ (mem_holeBoxes hsplit htool) haround.numeric).holds haround⟩

end Program

/-- In exact arithmetic, the box of a drill program that is read from a text holds every hole
whose tool is not of negative size, and a program that is shifted by the box to the origin
drills such a hole between the origin and the opposite corner of the box. The tool of a hole is
the one that the file defines last for its number, above the hole or below. -/
theorem Program.bounds_hold_holes {text : List Char} {p : Program (Exact K)} {box : Box (Exact K)}
    (hread : Program.ofText? text = .ok p) (hbounds : p.bounds = .ok box) :
    (∀ machine title,
      (p.body machine box.toOrigin title).ending = .ok () ∧
        ((p.body machine box.toOrigin title).program machine).filterMap Command.target? =
          p.stops.map box.toOrigin) ∧
    ∀ before hole after, p.steps = before ++ .drill hole :: after →
      let center := p.units.pointToMm hole
      p.stops[before.countP Step.isDrill]? = some center ∧
      ∃ (number : Nat) (tool : Tool (Exact K)), loadedAfter before = some number ∧
        toolOf? (directives text) number = some tool ∧
        (0.0 ≤ tool.size →
          box.xMin ≤ box.xMax ∧ box.yMin ≤ box.yMax ∧ box.Holds center ∧
            box.Frames (box.toOrigin center)) := by
  have hclean : p.Clean p.steps := (bounds_eq_ok_iff.mp hbounds).1
  refine ⟨fun machine title => ?_, ?_⟩
  · have hend : (p.body machine box.toOrigin title).ending = .ok () :=
      (ending_eq_ok_iff machine _).mpr hclean
    refine ⟨hend, ?_⟩
    rw [body_program machine _ hend]
    exact p.filterMap_target?_commands machine _ title
  · intro before hole after hsplit center
    rw [hsplit] at hclean
    obtain ⟨tool, htool⟩ := hclean.exists_tool
    obtain ⟨number, hloaded, hget⟩ := Option.bind_eq_some_iff.mp htool
    refine ⟨getElem?_stops hsplit, number, tool, hloaded, ?_, fun hsize => ?_⟩
    · rw [← get?_of_ofText? hread, hget]
    · obtain ⟨hfinite, hholds⟩ :=
        (sound_of_ofText? hread).bounds_holds hbounds hsplit htool hsize
      exact ⟨Scalar.le_trans hholds.xMin hholds.xMax, Scalar.le_trans hholds.yMin hholds.yMax,
        hholds, Box.frames_toOrigin hfinite hholds⟩

section Rational

local instance : Analytic ℚ := Gerber.coarse

/-- Whether the steps are a hole of the second tool and below it one of the first. -/
def isHoleOfEach {α : Type} : List (Step α) → Bool
  | [.change 2, .drill _, .change 1, .drill _] => true
  | _ => false

/-- A hole of a tool of negative size, and below it one of a tool of the size two. -/
theorem Program.bounds_hold_holes_signed :
    let text := "T1C2\nT2C-2\nT2\nX0.5Y0.5\nT1\nX1.0Y1.0\n".toList
    ∃ (p : Program (Exact ℚ)) (box : Box (Exact ℚ)) (center : Point (Exact ℚ)),
      Program.ofText? text = .ok p ∧ p.bounds = .ok box ∧ p.stops[1]? = some center ∧
        box.Holds center ∧ box.Frames (box.toOrigin center) := by
  intro text
  have hread : (Program.ofText? text : Except Fault (Program (Exact ℚ))).toOption.any (fun p =>
      p.bounds.isOk && isHoleOfEach p.steps) = true := by
    decide +kernel
  have htwo : (toolOf? (directives text) 1 : Option (Tool (Exact ℚ))).any (0.0 ≤ ·.size) = true := by
    decide +kernel
  obtain ⟨p, hp, haccepted⟩ := exists_of_any_toOption hread
  obtain ⟨hbounds, hsteps⟩ := (Bool.and_eq_true _ _).mp haccepted
  obtain ⟨box, hbox⟩ := isOk_iff.mp hbounds
  unfold isHoleOfEach at hsteps
  split at hsteps
  next first hole hsplit =>
    obtain ⟨-, hholes⟩ := Program.bounds_hold_holes hp hbox
    obtain ⟨hstop, number, tool, hloaded, htool, hplaced⟩ :=
      hholes [.change 2, .drill first, .change 1] hole [] hsplit
    cases hloaded
    rw [htool] at htwo
    obtain ⟨-, -, hholds, hframes⟩ := hplaced (of_decide_eq_true htwo)
    exact ⟨p, box, _, hp, hbox, hstop, hholds, hframes⟩
  next => cases hsteps

/-- The box around a hole of a tool of negative size is inverted. It does not hold the hole, and
its shift to the origin leaves the hole where it is, which is outside of a frame without width. -/
theorem Program.box_inverted_by_negative_tool :
    let text := "T1C-2\nT1\nX1.0Y1.0\n".toList
    ∃ (p : Program (Exact ℚ)) (box : Box (Exact ℚ)) (center : Point (Exact ℚ)),
      Program.ofText? text = .ok p ∧ p.bounds = .ok box ∧ p.stops = [center] ∧
        box.isEmpty = true ∧ ¬ box.xMin ≤ box.xMax ∧ ¬ box.yMin ≤ box.yMax ∧ ¬ box.Holds center ∧
        (box.toOrigin center).x = center.x ∧ (box.toOrigin center).y = center.y ∧
        ¬ box.Frames (box.toOrigin center) := by
  intro text
  have hread : (Program.ofText? text : Except Fault (Program (Exact ℚ))).toOption.any (fun p =>
      p.bounds.toOption.any fun box =>
        box.isEmpty && p.stops.length == 1 && p.stops.all fun center =>
          ¬ box.xMin ≤ box.xMax ∧ ¬ box.yMin ≤ box.yMax ∧ ¬ box.xMin ≤ center.x ∧
            (box.toOrigin center).x = center.x ∧ (box.toOrigin center).y = center.y ∧
            ¬ (box.toOrigin center).x ≤ box.width) = true := by
    decide +kernel
  obtain ⟨p, hp, hbounds⟩ := exists_of_any_toOption hread
  obtain ⟨box, hbox, htested⟩ := exists_of_any_toOption hbounds
  obtain ⟨hshape, hsides⟩ := (Bool.and_eq_true _ _).mp htested
  obtain ⟨hempty, hlength⟩ := (Bool.and_eq_true _ _).mp hshape
  obtain ⟨center, hstop⟩ := List.length_eq_one_iff.mp (eq_of_beq hlength)
  obtain ⟨hx, hy, hleft, hsameX, hsameY, hright⟩ :=
    of_decide_eq_true (List.all_eq_true.mp hsides center (by simp [hstop]))
  exact ⟨p, box, center, hp, hbox, hstop, hempty, hx, hy, fun h => hleft h.xMin, hsameX, hsameY,
    fun h => hright h.right⟩

end Rational

end BoardMill.Drill
