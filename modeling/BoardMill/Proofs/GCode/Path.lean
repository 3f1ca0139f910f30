import BoardMill.Picture.Drawing
import BoardMill.Proofs.GCode.Safety
import BoardMill.Proofs.Gerber.Steps
import BoardMill.Proofs.Outcome

/-! # The path of the tool

The lines of a program that move the tool along the board are those of the blocks that go
somewhere, one each and in their order. Where a block goes depends on the blocks before it
only through the last units and the last target.
-/

namespace BoardMill.GCode

/-- A line that moves the tool along the board. -/
def isPathLine (line : List Char) : Bool :=
  ["G00 X", "G01 X", "G02 X", "G03 X"].any fun code => code.toList.isPrefixOf line

variable {α : Type}

def Command.isPath : Command α → Bool
  | rapid _ | home | cut .. | arc .. => true
  | _ => false

/-- The point of the board that a command moves the tool to. -/
def Command.target? : Command α → Option (Point α)
  | rapid target | cut target _ | arc _ target _ _ => some target
  | _ => none

variable [Numeral α]

theorem isPathLine_line (c : Command α) : isPathLine c.line = c.isPath := by
  cases c with
  | arc clockwise target offset feed =>
      cases clockwise <;> simp [isPathLine, Command.isPath, Command.line, Command.text, toString, List.isPrefixOf]
  | _ => simp [isPathLine, Command.isPath, Command.line, Command.text, toString, List.isPrefixOf]

theorem filter_isPathLine (commands : List (Command α)) :
    (commands.map (·.line)).filter isPathLine =
      (commands.filter Command.isPath).map (·.line) := by
  rw [List.filter_map]
  congr 1
  exact List.filter_congr fun c _ => isPathLine_line c

namespace Motion

variable {α : Type} [Scalar α]

/-- The command of a motion that moves the tool along the board. -/
def pathCommand? (machine : Machine α) (place : Point α → Point α) : Motion α → Option (Command α)
  | note _ => none
  | travel target | stamp target => some (.rapid (place target))
  | cut target => some (.cut (place target) machine.feedRate)
  | arc clockwise start target center =>
    let offset := ⟨(place center).x - (place start).x, (place center).y - (place start).y⟩
    some (.arc clockwise (place target) offset machine.feedRate)

/-- However a motion begins and ends, it moves the tool along the board once. -/
theorem filter_isPath (machine : Machine α) (place : Point α → Point α) (engaged : Bool)
    (m : Motion α) :
    (m.commands machine place engaged).filter Command.isPath =
      (m.pathCommand? machine place).toList := by
  cases m <;> cases engaged <;> rfl

end Motion

end BoardMill.GCode

namespace BoardMill.Gerber

open GCode

variable {α : Type} [Scalar α]

/-- The arc from the cursor that an interpolation follows, in millimetres: the curve is an
arc, it has a center, and the center is not the cursor. -/
def arcBetween? (units : Units) (cursor : Point α) (mode : Interpolation) (target : Point α)
    (center : Option (Point α)) : Option (Arc α) :=
  if mode = .linear then none
  else
    center.bind fun c =>
      Arc.ofPoints? (units.pointToMm cursor) (units.pointToMm target) (units.pointToMm c)
        (mode == .clockwise)

theorem State.arc?_eq (s : State α) (mode : Interpolation) (target : Point α)
    (center : Option (Point α)) :
    s.arc? mode target center = arcBetween? s.units s.cursor mode target center := by
  cases mode <;> cases center <;> rfl

/-- The command that moves the tool along the board for a block, given the blocks before it.
The units are those of the last block that sets any, and a curve starts at the last target. -/
def Block.pathCommand? (machine : Machine α) (place : Point α → Point α)
    (before : List (Block α)) (b : Block α) : Option (Command α) :=
  let units := unitsAfter before
  let cursor := cursorAfter before
  match b with
  | .move target | .flash target => some (.rapid (place (units.pointToMm target)))
  | .interpolate mode target center =>
    match arcBetween? units cursor mode target center with
    | none => some (.cut (place (units.pointToMm target)) machine.feedRate)
    | some arc =>
      let start := place (units.pointToMm cursor)
      let offset := ⟨(place arc.center).x - start.x, (place arc.center).y - start.y⟩
      some (.arc (mode == .clockwise) (place (units.pointToMm target)) offset machine.feedRate)
  | _ => none

/-- The path command of a block goes to the target of the block. -/
theorem Block.bind_pathCommand? (machine : Machine α) (place : Point α → Point α)
    (before : List (Block α)) (b : Block α) :
    (b.pathCommand? machine place before).bind Command.target? =
      b.target?.map fun p => place ((unitsAfter before).pointToMm p) := by
  cases b with
  | interpolate mode target center =>
      unfold pathCommand?
      dsimp only
      split <;> rfl
  | _ => rfl

/-- Every item with those before it. -/
def visitsFrom {β : Type} (before : List β) : List β → List (List β × β)
  | [] => []
  | b :: rest => (before, b) :: visitsFrom (before ++ [b]) rest

theorem visitsFrom_append {β : Type} (before first second : List β) :
    visitsFrom before (first ++ second) =
      visitsFrom before first ++ visitsFrom (before ++ first) second := by
  induction first generalizing before with
  | nil => rw [List.nil_append, List.append_nil, visitsFrom, List.nil_append]
  | cons b rest ih => simp [visitsFrom, ih]

theorem exists_split_of_mem_visitsFrom {β : Type} {before blocks : List β} {visit : List β × β}
    (h : visit ∈ visitsFrom before blocks) :
    ∃ first after, blocks = first ++ visit.2 :: after ∧ visit.1 = before ++ first := by
  induction blocks generalizing before with
  | nil => cases h
  | cons b rest ih =>
      rcases List.mem_cons.mp h with rfl | hrest
      · exact ⟨[], rest, rfl, (List.append_nil _).symm⟩
      · obtain ⟨first, after, rfl, hvisit⟩ := ih hrest
        exact ⟨b :: first, after, rfl, by rw [hvisit, List.append_assoc]; rfl⟩

/-- The commands that move the tool along the board for a document, block by block. -/
def Document.path (machine : Machine α) (place : Point α → Point α) (d : Document α) :
    List (Command α) :=
  (visitsFrom [] (d.blocks.map Located.value)).filterMap fun (before, b) =>
    b.pathCommand? machine place before

variable (machine : Machine α) (place : Point α → Point α)

/-- The motion that a block asks for moves the tool along the board as the blocks before it
say. -/
theorem Block.pathCommand?_eq {s : State α} {before : List (Block α)} (h : s.Follows before)
    (b : Block α) :
    (b.goal? s).bind (·.pathCommand? machine place) = b.pathCommand? machine place before := by
  cases b with
  | select number =>
      cases hget : s.apertures.get? number <;>
        simp [goal?, pathCommand?, hget, Motion.pathCommand?]
  | flash target => simp [goal?, pathCommand?, Motion.pathCommand?, State.pointToMm, h.units]
  | move target => simp [goal?, pathCommand?, Motion.pathCommand?, State.pointToMm, h.units]
  | interpolate mode target center =>
      unfold goal? pathCommand?
      dsimp only
      rw [← h.units, ← h.cursor, ← State.arc?_eq]
      rcases s.stroke_cases mode target center with ⟨harc, hstroke⟩ | ⟨arc, c, harc, rfl, hstroke⟩
      · rw [harc, hstroke]
        rfl
      · obtain ⟨-, c', hc, hpoints⟩ := State.exists_center_of_arc? harc
        cases hc
        rw [harc, hstroke]
        dsimp only
        rw [Arc.center_of_ofPoints? hpoints]
        rfl
  | _ => rfl

/-- The path command among the commands of a block is the one that the blocks before it
call for. -/
theorem Block.filter_commands {engaged : Bool} {b : Block α} {line : Nat} {s : State α}
    {before : List (Block α)} {commands : List (Command α)} (hfollows : s.Follows before)
    (h : b.commands machine place engaged line s = .ok commands) :
    commands.filter Command.isPath = (b.pathCommand? machine place before).toList := by
  rw [← pathCommand?_eq machine place hfollows]
  rcases commands_cases h with ⟨hgoal, rfl⟩ | ⟨m, hgoal, rfl⟩
  · rw [hgoal]
    rfl
  · rw [hgoal]
    exact m.filter_isPath machine place engaged

/-- A run that ends well turns its first block into commands, carries it out, and ends well
from there on. -/
theorem Document.runFrom_cons_ok {lastLine : Nat} {engaged : Bool} {s : State α}
    {b : Located (Block α)} {rest : List (Located (Block α))}
    (hend : (runFrom machine place lastLine engaged s (b :: rest)).ending = .ok ()) :
    ∃ commands, b.value.commands machine place engaged b.line s = .ok commands ∧
      s.apply b = .ok (s.after b.value) ∧
      (runFrom machine place lastLine (engagedAfter engaged commands) (s.after b.value)
        rest).ending = .ok () ∧
      (runFrom machine place lastLine engaged s (b :: rest)).commands =
        commands ++ (runFrom machine place lastLine (engagedAfter engaged commands)
          (s.after b.value) rest).commands := by
  rw [runFrom] at hend ⊢
  cases hcommands : b.value.commands machine place engaged b.line s with
  | error fault =>
      rw [hcommands] at hend
      cases hend
  | ok commands =>
      cases hnext : s.apply b with
      | error fault =>
          rw [hcommands, hnext] at hend
          cases hend
      | ok next =>
          rw [hcommands, hnext] at hend
          cases State.eq_after_of_apply hnext
          exact ⟨commands, rfl, rfl, hend, rfl⟩

/-- The path commands of a run that ends well are those of its blocks in their order. -/
theorem Document.filter_runFrom {lastLine : Nat} {engaged : Bool} {s : State α}
    {before : List (Block α)} {blocks : List (Located (Block α))} (hfollows : s.Follows before)
    (hend : (runFrom machine place lastLine engaged s blocks).ending = .ok ()) :
    (runFrom machine place lastLine engaged s blocks).commands.filter Command.isPath =
      (visitsFrom before (blocks.map Located.value)).filterMap fun (before, b) =>
        b.pathCommand? machine place before := by
  -- The blocks so far grow with the state that they lead to.
  induction blocks generalizing engaged s before with
  | nil => rfl
  | cons b rest ih =>
      obtain ⟨commands, hcommands, -, hlater, hsplit⟩ := runFrom_cons_ok machine place hend
      rw [hsplit, List.filter_append, Block.filter_commands machine place hfollows hcommands,
        ih (hfollows.after b.value) hlater, List.map_cons, visitsFrom, List.filterMap_cons]
      dsimp only
      cases b.value.pathCommand? machine place before <;> rfl

/-- A run that ends well carries out all of its blocks. -/
theorem Document.foldlM_apply_of_runFrom {lastLine : Nat} {engaged : Bool} {s : State α}
    {blocks : List (Located (Block α))}
    (hend : (runFrom machine place lastLine engaged s blocks).ending = .ok ()) :
    blocks.foldlM State.apply s = .ok (s.afterAll blocks) := by
  induction blocks generalizing engaged s with
  | nil => rfl
  | cons b rest ih =>
      obtain ⟨commands, -, hnext, hlater, -⟩ := runFrom_cons_ok machine place hend
      rw [List.foldlM_cons, hnext]
      exact ih hlater

end BoardMill.Gerber

namespace BoardMill.Gerber

open GCode

variable {α : Type} [Numeral α] {s : State α} {mode : Interpolation} {target : Point α}
  {center : Option (Point α)}

/-- The boxes of an interpolation are those of its ends and of the outermost points of its
arc, if it has one. -/
theorem Block.footprints_interpolate (h : (interpolate mode target center).Admitted s)
    (line : Nat) :
    ∃ reach, s.reach line = .ok reach ∧
      (interpolate mode target center).footprints line s =
        .ok (Box.around s.position reach.endX reach.endY ::
          Box.around (s.pointToMm target) reach.endX reach.endY ::
          (((s.arc? mode target center).map Arc.axisExtremes).getD []).map fun p =>
            Box.around p reach.side reach.side) := by
  have hreach : ∃ reach, s.reach line = .ok reach := by
    unfold State.reach
    rcases h with hregion | hcurrent
    · rw [hregion]
      exact ⟨_, rfl⟩
    · obtain ⟨a, ha⟩ := Option.isSome_iff_exists.mp hcurrent
      rw [State.require_of_current? ha]
      cases s.inRegion <;> exact ⟨_, rfl⟩
  obtain ⟨reach, hreach⟩ := hreach
  refine ⟨reach, hreach, ?_⟩
  rw [footprints, hreach]
  rfl

/-- An interpolation draws its path into the open contour, or as a stroke. -/
theorem Block.draw_interpolate (h : (interpolate mode target center).Admitted s) (line : Nat) :
    ∃ rounded width, ∀ (options : PictureOptions α) (frame : Frame α) (drawing : Drawing α),
      (interpolate mode target center).draw options frame line s drawing =
        .ok (if s.inRegion then
            { drawing with contours := drawing.contours.extend (s.path mode target center) }
          else drawing.mark s.polarity (.stroke rounded width (s.path mode target center))) := by
  cases hregion : s.inRegion with
  | true =>
      refine ⟨true, s.toMm 0.0, fun options frame drawing => ?_⟩
      rw [draw, hregion]
      rfl
  | false =>
      rcases h with hopen | hcurrent
      · rw [hregion] at hopen
        cases hopen
      · obtain ⟨a, ha⟩ := Option.isSome_iff_exists.mp hcurrent
        refine ⟨a.shape.isRound, s.toMm a.strokeWidth, fun options frame drawing => ?_⟩
        rw [draw, State.require_of_current? ha, hregion]
        rfl

end BoardMill.Gerber

namespace BoardMill.Gerber.Document

open GCode

variable {α : Type} [Numeral α] {machine : Machine α} {place : Point α → Point α}
  {engaged : Bool} {title : String} {d : Document α}

/-- The path commands of a program are those of the blocks in their order. -/
theorem filter_program (hend : (d.body machine place engaged title).ending = .ok ()) :
    ((d.body machine place engaged title).program machine).filter Command.isPath =
      d.path machine place := by
  have hrun := filter_runFrom machine place (.start d.apertures) hend
  rw [Run.program, hend]
  dsimp only
  rw [List.filter_append, body_commands, List.filter_append, hrun]
  exact List.append_nil _

/-- Every block of a complete program was looked at in the state that the blocks before it
lead to, and that state admitted it. -/
theorem exists_state_of_split (hend : (d.body machine place engaged title).ending = .ok ())
    {before after : List (Located (Block α))} {b : Located (Block α)}
    (hsplit : d.blocks = before ++ b :: after) :
    ∃ s, before.foldlM State.apply (.start d.apertures) = .ok s ∧
      s.Follows (before.map Located.value) ∧ b.value.Admitted s := by
  have hlast := foldlM_apply_of_runFrom machine place hend
  rw [hsplit, List.foldlM_append] at hlast
  cases hbefore : before.foldlM State.apply (.start d.apertures) with
  | error fault =>
      rw [hbefore] at hlast
      cases hlast
  | ok s =>
      rw [hbefore] at hlast
      change (b :: after).foldlM State.apply s = _ at hlast
      rw [List.foldlM_cons] at hlast
      refine ⟨s, rfl, ?_, ?_⟩
      · rw [State.eq_afterAll_of_foldlM hbefore]
        exact (State.Follows.start d.apertures).afterAll before
      · cases hnext : s.apply b with
        | error fault =>
            rw [hnext] at hlast
            cases hlast
        | ok next => exact (State.apply_eq_ok_iff.mp hnext).1

end BoardMill.Gerber.Document

namespace BoardMill.GCode

open Gerber

/-- The lines of a complete document program that move the tool along the board are those
of the blocks that go somewhere, one each and in their order: rapid for moves and flashes,
straight or along an arc for interpolations. Where an interpolation follows an arc, the
bounds of the document cover the outermost points of the same arc, and its picture shows
the points of the same arc. -/
theorem Sink.document_follows_blocks (machine : Machine Float) (place : Point Float → Point Float)
    (room : Option Nat) (d : Document Float) (title : String) (htitle : '\n' ∉ title.toList)
    (hok : ((Sink.start machine place room).document d title).1 = .ok ()) :
    (((Sink.start machine place room).document d title).2.tape.lines.map Prod.fst).filter
        isPathLine = (d.path machine place).map (·.line) ∧
      ∀ before line mode target center after,
        d.blocks = before ++ ⟨line, .interpolate mode target center⟩ :: after →
        let units := unitsAfter (before.map Located.value)
        let cursor := cursorAfter (before.map Located.value)
        let arc? := arcBetween? units cursor mode target center
        ∃ s, before.foldlM State.apply (.start d.apertures) = .ok s ∧
          (∃ reach, s.reach line = .ok reach ∧
            (Block.interpolate mode target center).footprints line s =
              .ok (Box.around (units.pointToMm cursor) reach.endX reach.endY ::
                Box.around (units.pointToMm target) reach.endX reach.endY ::
                ((arc?.map Arc.axisExtremes).getD []).map fun p =>
                  Box.around p reach.side reach.side)) ∧
          let path := (arc?.map Arc.points).getD [units.pointToMm cursor, units.pointToMm target]
          ∃ rounded width, ∀ options frame drawing,
            (Block.interpolate mode target center).draw options frame line s drawing =
              .ok (if s.inRegion then
                  { drawing with contours := drawing.contours.extend path }
                else drawing.mark s.polarity (.stroke rounded width path)) := by
  let run := d.body machine place false title
  have hsingle : ∀ c ∈ run.program machine, '\n' ∉ c.line :=
    Document.newline_not_mem_program machine place htitle d
  rcases Sink.start_complete_lines machine place room run hsingle with
    ⟨hresult, hlines⟩ | ⟨hresult, -⟩
  · have hend : run.ending = .ok () := hresult.symm.trans hok
    refine ⟨?_, fun before line mode target center after hsplit => ?_⟩
    · have hlines' : ((Sink.start machine place room).document d title).2.tape.lines =
          (run.program machine).map (·.line, true) := hlines
      rw [hlines', List.map_map, ← Document.filter_program hend]
      exact filter_isPathLine _
    · intro units cursor arc?
      obtain ⟨s, hstate, hfollows, hadmitted⟩ := Document.exists_state_of_split hend hsplit
      have harc : s.arc? mode target center = arc? := by
        rw [State.arc?_eq, hfollows.units, hfollows.cursor]
      have hplace (p : Point Float) : s.pointToMm p = units.pointToMm p := by
        rw [State.pointToMm, hfollows.units]
      have hposition : s.position = units.pointToMm cursor := by
        rw [State.position, hplace, hfollows.cursor]
      refine ⟨s, hstate, ?_, ?_⟩
      · obtain ⟨reach, hreach, hboxes⟩ := Block.footprints_interpolate hadmitted line
        rw [harc, hplace, hposition] at hboxes
        exact ⟨reach, hreach, hboxes⟩
      · have hpath : s.path mode target center =
            (arc?.map Arc.points).getD [units.pointToMm cursor, units.pointToMm target] := by
          rw [State.path, harc, hplace, hposition]
          cases arc? <;> rfl
        rw [← hpath]
        exact Block.draw_interpolate hadmitted line
  · cases hresult.symm.trans hok

/-- A region in inches with a straight side and a quarter of a circle: each of the two has its line,
and the quarter has an arc, which the box reaches around and the contour runs along. -/
theorem Sink.document_follows_blocks_quarter :
    let quarter : Block Float := .interpolate .counterclockwise ⟨1.0, 1.0⟩ (some ⟨1.0, 0.0⟩)
    let before : List (Located (Block Float)) := [⟨1, .units .inches⟩, ⟨2, .regionStart⟩,
      ⟨3, .move ⟨1.0, 0.0⟩⟩, ⟨4, .interpolate .linear ⟨2.0, 0.0⟩ none⟩]
    let d : Document Float := ⟨before ++ ⟨5, quarter⟩ :: [⟨6, .regionEnd⟩], .empty⟩
    let machine : Machine Float := .default
    let written := (Sink.start machine id none).document d "job"
    '\n' ∉ "job".toList ∧ written.1 = .ok () ∧
      (written.2.tape.lines.map Prod.fst).filter isPathLine =
        ["G00 X25.4000 Y0.0000", "G01 X50.8000 Y0.0000 F300",
          "G03 X25.4000 Y25.4000 I-25.4000 J0.0000 F300"].map String.toList ∧
      ∃ arc s, arcBetween? .inches ⟨2.0, 0.0⟩ .counterclockwise ⟨1.0, 1.0⟩ (some ⟨1.0, 0.0⟩) =
          some arc ∧
        before.foldlM State.apply (.start d.apertures) = .ok s ∧
        (∃ first second side, quarter.footprints 5 s =
          .ok (first :: second :: arc.axisExtremes.map fun p => Box.around p side side)) ∧
        ∀ options frame drawing, quarter.draw options frame 5 s drawing =
          .ok { drawing with contours := drawing.contours.extend arc.points } := by
  intro quarter before d machine written
  have htitle : '\n' ∉ "job".toList := by decide
  have hending : written.1.isOk = true := by decide +kernel
  obtain ⟨_, hok⟩ := Outcome.isOk_iff.mp hending
  obtain ⟨hlines, harcs⟩ := Sink.document_follows_blocks machine id none d "job" htitle hok
  have hpath : (d.path machine id).map (·.line) =
      ["G00 X25.4000 Y0.0000", "G01 X50.8000 Y0.0000 F300",
        "G03 X25.4000 Y25.4000 I-25.4000 J0.0000 F300"].map String.toList := by
    decide +kernel
  have hsome : (arcBetween? .inches (⟨2.0, 0.0⟩ : Point Float) .counterclockwise ⟨1.0, 1.0⟩
      (some ⟨1.0, 0.0⟩)).isSome = true := by
    decide +kernel
  obtain ⟨arc, harc⟩ := Option.isSome_iff_exists.mp hsome
  obtain ⟨s, hstate, ⟨reach, -, hboxes⟩, rounded, width, hdrawn⟩ := harcs before 5
    .counterclockwise ⟨1.0, 1.0⟩ (some ⟨1.0, 0.0⟩) [⟨6, .regionEnd⟩] rfl
  have hregion : s.inRegion = true := by
    cases hstate
    rfl
  have hunits : unitsAfter (before.map Located.value) = .inches := rfl
  have hcursor : cursorAfter (before.map Located.value) = ⟨2.0, 0.0⟩ := rfl
  rw [hunits, hcursor, harc] at hboxes
  refine ⟨htitle, hok, hlines.trans hpath, arc, s, harc, hstate, ⟨_, _, _, hboxes⟩,
    fun options frame drawing => ?_⟩
  have hextended := hdrawn options frame drawing
  rw [hunits, hcursor, harc, hregion, if_pos rfl] at hextended
  exact hextended

end BoardMill.GCode
