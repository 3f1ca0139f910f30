import BoardMill.Gerber.Extent
import BoardMill.Gerber.Reading
import BoardMill.Proofs.GCode.Path
import BoardMill.Proofs.Outcome

/-! # Where strokes start

A stroke starts at the current point. The state keeps it in the units of the document and takes
it to millimetres at every use. So a stroke starts where the block before it has led, if the
units are still the same, and a change of units in between moves its start.
-/

namespace BoardMill.Gerber

open GCode (Motion)
open Outcome

namespace State

section Steps

variable {α : Type} {s last : State α}

theorem cursor_afterAll_of_still {blocks : List (Located (Block α))}
    (h : ∀ b ∈ blocks, b.value.target? = none) : (s.afterAll blocks).cursor = s.cursor := by
  induction blocks generalizing s with
  | nil => rfl
  | cons b rest ih =>
      obtain ⟨hb, hrest⟩ := List.forall_mem_cons.mp h
      have hnext : (s.after b.value).cursor = s.cursor := by rw [after_cursor, hb, Option.getD_none]
      exact (ih hrest).trans hnext

/-- Blocks that go nowhere leave the state at the target of the block before them. -/
theorem cursor_of_foldlM_split {first between : List (Located (Block α))}
    {b : Located (Block α)} {p : Point α}
    (h : (first ++ b :: between).foldlM apply s = .ok last) (hb : b.value.target? = some p)
    (hstill : ∀ c ∈ between, c.value.target? = none) :
    ∃ found, first.foldlM apply s = .ok found ∧ last.cursor = p := by
  obtain ⟨found, next, hfound, hnext, hlast⟩ := exists_of_foldlM_split h
  refine ⟨found, hfound, ?_⟩
  rw [eq_afterAll_of_foldlM hlast, cursor_afterAll_of_still hstill, eq_after_of_apply hnext,
    after_cursor, hb, Option.getD_some]

end Steps

variable {α : Type} [Numeral α]

/-- The passes take a point for the start of an interpolation: the box covers a box around it,
the machine cuts straight to the target or along an arc from the point, and the picture draws
the same. -/
structure StartsAt (s : State α) (start : Point α) (line : Nat) (mode : Interpolation)
    (target : Point α) (center : Option (Point α)) : Prop where
  box : ∃ reach, s.reach line = .ok reach ∧
    (Block.interpolate mode target center).footprints line s =
      .ok (Box.around start reach.endX reach.endY ::
        Box.around (s.pointToMm target) reach.endX reach.endY ::
        (((s.arc? mode target center).map Arc.axisExtremes).getD []).map fun p =>
          Box.around p reach.side reach.side)
  straight : s.arc? mode target center = none →
    (Block.interpolate mode target center).motion? line s = .ok (some (.cut (s.pointToMm target)))
  curved : ∀ arc, s.arc? mode target center = some arc →
    ∃ c, center = some c ∧
      Arc.ofPoints? start (s.pointToMm target) (s.pointToMm c) (mode == .clockwise) = some arc ∧
      (Block.interpolate mode target center).motion? line s =
        .ok (some (.arc (mode == .clockwise) start (s.pointToMm target) (s.pointToMm c)))
  picture : ∃ rounded width, ∀ (options : PictureOptions α) (frame : Frame α)
    (drawing : Drawing α),
    let path := ((s.arc? mode target center).map Arc.points).getD [start, s.pointToMm target]
    (Block.interpolate mode target center).draw options frame line s drawing =
      .ok (if s.inRegion then { drawing with contours := drawing.contours.extend path }
        else drawing.mark s.polarity (.stroke rounded width path))

theorem motion?_interpolate {s : State α} {mode : Interpolation} {target : Point α}
    {center : Option (Point α)} (h : (Block.interpolate mode target center).Admitted s)
    (line : Nat) :
    (Block.interpolate mode target center).motion? line s =
      .ok (some (s.stroke mode target center)) := by
  have hready : (Block.interpolate mode target center).ready line s = .ok () := by
    rcases h with hregion | hcurrent
    · rw [Block.ready, if_pos hregion]
    · obtain ⟨a, ha⟩ := Option.isSome_iff_exists.mp hcurrent
      rw [Block.ready, require_of_current? ha]
      split <;> rfl
  rw [Block.motion?_eq, hready]
  rfl

/-- The passes take the current point for the start of an interpolation. -/
theorem startsAt_position {s : State α} {mode : Interpolation} {target : Point α}
    {center : Option (Point α)} (h : (Block.interpolate mode target center).Admitted s)
    (line : Nat) : s.StartsAt s.position line mode target center where
  box := Block.footprints_interpolate h line
  straight hstraight := by
    rcases s.stroke_cases mode target center with ⟨-, hstroke⟩ | ⟨arc, c, harc, -⟩
    · rw [motion?_interpolate h, hstroke]
    · cases hstraight.symm.trans harc
  curved arc harc := by
    rcases s.stroke_cases mode target center with ⟨hstraight, -⟩ | ⟨_, c, -, rfl, hstroke⟩
    · cases hstraight.symm.trans harc
    · obtain ⟨-, _, hc, hpoints⟩ := exists_center_of_arc? harc
      cases hc
      exact ⟨c, rfl, hpoints, by rw [motion?_interpolate h, hstroke]⟩
  picture := by
    have hpath : s.path mode target center =
        ((s.arc? mode target center).map Arc.points).getD [s.position, s.pointToMm target] := by
      unfold path
      cases s.arc? mode target center <;> rfl
    rw [← hpath]
    exact Block.draw_interpolate h line

end State

/-- In a document whose blocks can all be carried out, an interpolation starts where the last
block before it that goes anywhere has led in the units of the document, or at the origin. The
passes take this point to millimetres with the units at the interpolation. So it is the point
that the block has led to if these are still the units that applied there. -/
theorem Document.strokes_start_at_cursor {d : Document Float} {last : State Float}
    (haccepted : d.blocks.foldlM State.apply (.start d.apertures) = .ok last)
    {before after : List (Located (Block Float))} {line : Nat} {mode : Interpolation}
    {target : Point Float} {center : Option (Point Float)}
    (hsplit : d.blocks = before ++ ⟨line, .interpolate mode target center⟩ :: after) :
    ∃ s, before.foldlM State.apply (.start d.apertures) = .ok s ∧
      s.StartsAt s.position line mode target center ∧
      ((∀ b ∈ before, b.value.target? = none) → s.position = ⟨0.0, 0.0⟩) ∧
      ∀ first b between p, before = first ++ b :: between → b.value.target? = some p →
        (∀ c ∈ between, c.value.target? = none) →
        ∃ found, first.foldlM State.apply (.start d.apertures) = .ok found ∧
          s.cursor = p ∧ s.position = s.pointToMm p ∧
          (s.units = found.units → s.position = found.pointToMm p) := by
  rw [hsplit] at haccepted
  obtain ⟨s, next, hs, hnext, -⟩ := exists_of_foldlM_split haccepted
  refine ⟨s, hs, State.startsAt_position (State.apply_eq_ok_iff.mp hnext).1 line, ?_, ?_⟩
  · intro hstill
    have hcursor : s.cursor = ⟨0.0, 0.0⟩ := by
      rw [State.eq_afterAll_of_foldlM hs]
      exact State.cursor_afterAll_of_still hstill
    rw [State.position, hcursor, State.pointToMm]
    cases s.units <;> rfl
  · rintro first b between p rfl hb hstill
    obtain ⟨found, hfound, hcursor⟩ := State.cursor_of_foldlM_split hs hb hstill
    have hposition : s.position = s.pointToMm p := by rw [State.position, hcursor]
    refine ⟨found, hfound, hcursor, hposition, fun hunits => ?_⟩
    rw [hposition, State.pointToMm, State.pointToMm, hunits]

/-- The units change between a move and a stroke, and back again. -/
theorem Document.strokes_start_at_cursor_inches :
    let first : List (Located (Block Float)) := [⟨1, .units .inches⟩, ⟨2, .regionStart⟩]
    let move : Located (Block Float) := ⟨3, .move ⟨1.0, 0.0⟩⟩
    let between : List (Located (Block Float)) :=
      [⟨4, .units .millimeters⟩, ⟨5, .polarity .clear⟩, ⟨6, .units .inches⟩]
    let before := first ++ move :: between
    let blocks := before ++ ⟨7, .interpolate .linear ⟨2.0, 0.0⟩ none⟩ :: [⟨8, .regionEnd⟩]
    (blocks.foldlM State.apply (.start .empty)).isOk = true ∧
    ∃ s found : State Float, before.foldlM State.apply (.start .empty) = .ok s ∧
      first.foldlM State.apply (.start .empty) = .ok found ∧
      s.position = found.pointToMm ⟨1.0, 0.0⟩ ∧
      s.StartsAt s.position 7 .linear ⟨2.0, 0.0⟩ none := by
  intro first move between before blocks
  let d : Document Float := ⟨blocks, .empty⟩
  obtain ⟨s, hs, hpasses, -, hlast⟩ := Document.strokes_start_at_cursor (d := d) rfl rfl
  obtain ⟨found, hfound, -, -, hplace⟩ := hlast first move between ⟨1.0, 0.0⟩ rfl rfl
    (by simp [between, Block.target?])
  have hunits : s.units = found.units := by
    cases hs
    cases hfound
    rfl
  exact ⟨rfl, s, found, hs, hfound, hplace hunits, hpasses⟩

/-- Whether the blocks are a region in which the units change to inches between a move to one
millimetre and a stroke, so that the target of the move is farther out behind the change. -/
def isMovedByUnits : List (Located (Block Float)) → Bool
  | [⟨_, .format _⟩, ⟨_, .regionStart⟩, ⟨_, .move p⟩, ⟨_, .units .inches⟩,
      ⟨_, .interpolate .linear _ none⟩, ⟨_, .regionEnd⟩] =>
    decide ((Units.millimeters.pointToMm p).x ≤ 1.0 ∧ ¬ (Units.inches.pointToMm p).x ≤ 1.0)
  | _ => false

/-- A move leads to one millimetre, and then the units change to inches. The stroke behind it
starts at one inch, which is farther out. -/
theorem Document.stroke_moved_by_units :
    let text := "%FSLAX11Y11*%G36*X10Y0D02*%MOIN*%X20Y0D01*G37*M02*".toList
    ∃ (d : Document Float) (first after : List (Located (Block Float)))
      (move change stroke : Located (Block Float)) (p target : Point Float),
      Document.ofText? text = .ok d ∧ d.bounds.isOk = true ∧
      d.blocks = (first ++ move :: [change]) ++ stroke :: after ∧ move.value = .move p ∧
      change.value = .units .inches ∧ stroke.value = .interpolate .linear target none ∧
      ∃ s found : State Float,
        (first ++ move :: [change]).foldlM State.apply (.start d.apertures) = .ok s ∧
        first.foldlM State.apply (.start d.apertures) = .ok found ∧
        (found.pointToMm p).x ≤ 1.0 ∧ ¬ s.position.x ≤ 1.0 ∧ s.position ≠ found.pointToMm p := by
  intro text
  have hread : (Document.ofText? text : Except Fault (Document Float)).toOption.any (fun d =>
      d.bounds.isOk && isMovedByUnits d.blocks) = true := by
    decide +kernel
  obtain ⟨d, hd, haccepted⟩ := exists_of_any_toOption hread
  obtain ⟨hbounds, hblocks⟩ := (Bool.and_eq_true _ _).mp haccepted
  unfold isMovedByUnits at hblocks
  split at hblocks
  next formatLine f startLine moveLine p unitsLine strokeLine target endLine hsplit =>
    obtain ⟨hfound, hmoved⟩ := of_decide_eq_true hblocks
    refine ⟨d, [⟨formatLine, .format f⟩, ⟨startLine, .regionStart⟩], _, _, _, _, p, target, hd,
      hbounds, hsplit, rfl, rfl, rfl, _, _, rfl, rfl, hfound, hmoved, fun hsame => hmoved ?_⟩
    have hx : (Units.inches.pointToMm p).x = (Units.millimeters.pointToMm p).x :=
      congrArg Point.x hsame
    rw [hx]
    exact hfound
  next => cases hblocks

end BoardMill.Gerber
