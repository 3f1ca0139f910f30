import BoardMill.Gerber.Reading
import BoardMill.Proofs.Decimal.Fixed
import BoardMill.Proofs.GCode.Lines
import BoardMill.Proofs.GCode.Path
import BoardMill.Proofs.Outcome

/-! # Arcs as they are written

Whether a block is cut along an arc is decided on the numbers of the document. The line of the arc
has them rounded to four places. So the offsets of its center show zero if the center is that near
to the start, and its end shows in the place of the start if it is about that near: a machine
reads the first line as an arc without a radius and the second one as a full circle.
-/

namespace BoardMill.GCode

open Decimal (shown?)
open Gerber

/-- The number behind a letter in a line. -/
def numberAt? (letter : Char) (line : List Char) : Option ℚ :=
  ((wordsOf line).find? fun word => word.head? == some letter).bind fun word => shown? word.tail

/-- Whether a line cuts along an arc. -/
def isArcLine (line : List Char) : Bool :=
  ["G02 X", "G03 X"].any fun code => code.toList.isPrefixOf line

/-- The place of the board that a line leads to. -/
def shownTarget (line : List Char) : Option ℚ × Option ℚ := (numberAt? 'X' line, numberAt? 'Y' line)

/-- What a line shows for a number with four places. -/
def shownFixed (x : Float) : Option ℚ := shown? (Numeral.fixed 4 x).toList

def shownPoint (p : Point Float) : Option ℚ × Option ℚ := (shownFixed p.x, shownFixed p.y)

/-- A double is a number within a distance from zero. -/
def Within (distance : ℚ) (x : Float) : Prop :=
  ∃ value, (Binary.ofFloat x).value? = some value ∧ |value| ≤ distance

/-- Two doubles are numbers within a distance from each other. -/
def Near (distance : ℚ) (x y : Float) : Prop :=
  ∃ v w, (Binary.ofFloat x).value? = some v ∧ (Binary.ofFloat y).value? = some w ∧
    |v - w| ≤ distance

theorem shownFixed_eq_zero_iff {x : Float} : shownFixed x = some 0 ↔ Within (1 / 20000) x := by
  have hplace : (1 : ℚ) / 20000 = 1 / (2 * 10 ^ 4) := by norm_num
  rw [Within, hplace]
  exact Decimal.shown?_fixedText_eq_zero_iff 4 x

theorem near_of_shownFixed {x y : Float} {shown : ℚ} (hx : shownFixed x = some shown)
    (hy : shownFixed y = some shown) : Near (1 / 10000) x y := by
  have hplace : (1 : ℚ) / 10000 = 1 / 10 ^ 4 := by norm_num
  rw [Near, hplace]
  exact Decimal.exists_near_of_shown? hx hy

/-! ## The lines of path commands -/

namespace Command

theorem numberAt?_line (letter : Char) (c : Command Float) :
    numberAt? letter c.line =
      (c.words.find? fun word => word.head? == some letter).bind fun word => shown? word.tail := by
  rw [numberAt?, wordsOf_line]

/-- The line of a command that goes to a point shows the point. -/
theorem shownTarget_line {c : Command Float} {p : Point Float} (h : c.target? = some p) :
    shownTarget c.line = shownPoint p := by
  cases c with
  | rapid target =>
      cases h
      rw [shownTarget, numberAt?_line, numberAt?_line]
      rfl
  | cut target feed =>
      cases h
      rw [shownTarget, numberAt?_line, numberAt?_line]
      rfl
  | arc clockwise target offset feed =>
      cases h
      rw [shownTarget, numberAt?_line, numberAt?_line]
      cases clockwise <;> rfl
  | _ => cases h

theorem numberAt?_arc (clockwise : Bool) (target offset : Point Float) (feed : Float) :
    numberAt? 'I' (arc clockwise target offset feed).line = shownFixed offset.x ∧
      numberAt? 'J' (arc clockwise target offset feed).line = shownFixed offset.y := by
  rw [numberAt?_line, numberAt?_line]
  cases clockwise <;> exact ⟨rfl, rfl⟩

theorem exists_arc_of_isArcLine {c : Command Float} (h : isArcLine c.line = true) :
    ∃ clockwise target offset feed, c = arc clockwise target offset feed := by
  cases c with
  | arc clockwise target offset feed => exact ⟨clockwise, target, offset, feed, rfl⟩
  | _ => simp [isArcLine, line, text, toString, List.isPrefixOf] at h

end Command

end BoardMill.GCode

namespace BoardMill.Gerber

open GCode

/-- A path command of a document is that of one of its blocks. -/
theorem Document.exists_split_of_mem_path {α : Type} [Scalar α] {machine : Machine α}
    {place : Point α → Point α} {d : Document α} {c : Command α} (h : c ∈ d.path machine place) :
    ∃ before b after, d.blocks = before ++ b :: after ∧
      b.value.pathCommand? machine place (before.map Located.value) = some c := by
  obtain ⟨⟨before, value⟩, hvisit, hc⟩ := List.mem_filterMap.mp h
  obtain ⟨first, after, hblocks, hbefore⟩ := exists_split_of_mem_visitsFrom hvisit
  obtain ⟨before', rest, hsplit, rfl, hrest⟩ := List.map_eq_append_iff.mp hblocks
  obtain ⟨b, after', rfl, rfl, -⟩ := List.map_eq_cons_iff.mp hrest
  dsimp only at hbefore hc
  rw [hbefore, List.nil_append] at hc
  exact ⟨before', b, after', hsplit, hc⟩

/-- A block is cut along an arc if it is a curve between points that an arc joins. -/
theorem Block.exists_arc_of_pathCommand? {α : Type} [Scalar α] {machine : Machine α}
    {place : Point α → Point α} {before : List (Block α)} {b : Block α} {clockwise : Bool}
    {finish offset : Point α} {feed : α}
    (h : b.pathCommand? machine place before = some (.arc clockwise finish offset feed)) :
    ∃ mode target center arc, b = .interpolate mode target (some center) ∧
      let units := unitsAfter before
      let start := units.pointToMm (cursorAfter before)
      let middle := units.pointToMm center
      Arc.ofPoints? start (units.pointToMm target) middle (mode == .clockwise) = some arc ∧
      finish = place (units.pointToMm target) ∧
      offset = ⟨(place middle).x - (place start).x, (place middle).y - (place start).y⟩ := by
  cases b with
  | interpolate mode target center =>
      unfold pathCommand? at h
      dsimp only at h
      split at h
      next => cases h
      next arc harc =>
        obtain ⟨-, hcenter⟩ := Option.ite_none_left_eq_some.mp harc
        obtain ⟨c, rfl, hpoints⟩ := Option.bind_eq_some_iff.mp hcenter
        rw [Arc.center_of_ofPoints? hpoints] at h
        cases h
        exact ⟨mode, target, c, arc, rfl, hpoints, rfl, rfl⟩
  | _ => cases h

end BoardMill.Gerber

namespace BoardMill.GCode

open Gerber

/-- The lines of a program that cut along arcs are lines of its path commands. -/
theorem Sink.exists_arc_of_line {machine : Machine Float} {place : Point Float → Point Float}
    {room : Option Nat} {d : Document Float} {title : String} (htitle : '\n' ∉ title.toList)
    (hok : ((Sink.start machine place room).document d title).1 = .ok ()) {line : List Char}
    (hline : line ∈
      ((Sink.start machine place room).document d title).2.tape.lines.map Prod.fst)
    (harc : isArcLine line = true) :
    ∃ clockwise target offset feed,
      Command.arc clockwise target offset feed ∈ d.path machine place ∧
      line = (Command.arc clockwise target offset feed).line := by
  let run := d.body machine place false title
  have hsingle : ∀ c ∈ run.program machine, '\n' ∉ c.line :=
    Document.newline_not_mem_program machine place htitle d
  have hlines : ((Sink.start machine place room).document d title).2.tape.lines =
      (linesOf (run.program machine)).map (·, true) := start_complete_linesOf hok
  rw [hlines, linesOf_eq_map hsingle, List.map_map, List.map_map] at hline
  obtain ⟨c, hc, rfl⟩ := List.mem_map.mp hline
  obtain ⟨clockwise, target, offset, feed, rfl⟩ := Command.exists_arc_of_isArcLine harc
  refine ⟨clockwise, target, offset, feed, ?_, rfl⟩
  have hend : run.ending = .ok () := (start_complete_text hok).1
  rw [← Document.filter_program hend]
  exact List.mem_filter.mpr ⟨hc, rfl⟩

/-- A line of a complete document program that cuts along an arc is that of a curve with an arc
that is not too small as the document has it. The offsets of the center both show zero exactly if
they are at most half of a ten-thousandth. The line shows the end of the curve, and if it shows the
start by that, the two are at most a ten-thousandth apart along each axis. The start is what the
path line before showed, unless the units have changed since. -/
theorem Sink.document_shows_arcs (machine : Machine Float) (place : Point Float → Point Float)
    (room : Option Nat) (d : Document Float) (title : String) (htitle : '\n' ∉ title.toList)
    (hok : ((Sink.start machine place room).document d title).1 = .ok ()) :
    ∀ line ∈ ((Sink.start machine place room).document d title).2.tape.lines.map Prod.fst,
      isArcLine line = true →
      ∃ before number mode target center after arc,
        d.blocks = before ++ ⟨number, .interpolate mode target (some center)⟩ :: after ∧
        let units := unitsAfter (before.map Located.value)
        let start := units.pointToMm (cursorAfter (before.map Located.value))
        let finish := units.pointToMm target
        let middle := units.pointToMm center
        Arc.ofPoints? start finish middle (mode == .clockwise) = some arc ∧
        ¬ arc.radius < 1e-9 ∧
        (numberAt? 'I' line = some 0 ∧ numberAt? 'J' line = some 0 ↔
          Within (1 / 20000) ((place middle).x - (place start).x) ∧
            Within (1 / 20000) ((place middle).y - (place start).y)) ∧
        shownTarget line = shownPoint (place finish) ∧
        (∀ x y, shownTarget line = (some x, some y) → shownPoint (place start) = (some x, some y) →
          Near (1 / 10000) (place finish).x (place start).x ∧
            Near (1 / 10000) (place finish).y (place start).y) ∧
        ∀ first b between, before = first ++ b :: between → b.value.target?.isSome = true →
          (∀ c ∈ between, c.value.target? = none) → unitsAfter (first.map Located.value) = units →
          ∃ c, b.value.pathCommand? machine place (first.map Located.value) = some c ∧
            shownTarget c.line = shownPoint (place start) := by
  intro line hline harc
  obtain ⟨clockwise, finish, offset, feed, hmem, rfl⟩ :=
    Sink.exists_arc_of_line htitle hok hline harc
  obtain ⟨before, ⟨number, value⟩, after, hsplit, hcommand⟩ :=
    Document.exists_split_of_mem_path hmem
  obtain ⟨mode, target, center, arc, rfl, hpoints, rfl, rfl⟩ :=
    Block.exists_arc_of_pathCommand? hcommand
  obtain ⟨hi, hj⟩ := Command.numberAt?_arc clockwise _ _ feed
  refine ⟨before, number, mode, target, center, after, arc, hsplit, hpoints,
    (Arc.of_ofPoints? hpoints).2.1, ?_, Command.shownTarget_line rfl, ?_, ?_⟩
  · rw [hi, hj, shownFixed_eq_zero_iff, shownFixed_eq_zero_iff]
  · intro x y hfinish hstart
    rw [Command.shownTarget_line rfl] at hfinish
    obtain ⟨hfinishX, hfinishY⟩ := Prod.mk.inj hfinish
    obtain ⟨hstartX, hstartY⟩ := Prod.mk.inj hstart
    exact ⟨near_of_shownFixed hfinishX hstartX, near_of_shownFixed hfinishY hstartY⟩
  · rintro first b between rfl hb hstill hunits
    obtain ⟨p, hp⟩ := Option.isSome_iff_exists.mp hb
    have hcursor : cursorAfter ((first ++ b :: between).map Located.value) = p := by
      rw [List.map_append, List.map_cons]
      exact cursorAfter_of_still hp (List.forall_mem_map.mpr hstill)
    have hgoes := Block.bind_pathCommand? machine place (first.map Located.value) b.value
    rw [hp, Option.map_some, hunits, ← hcursor] at hgoes
    obtain ⟨c, hc, hgoal⟩ := Option.bind_eq_some_iff.mp hgoes
    exact ⟨c, hc, Command.shownTarget_line hgoal⟩

/-! ## Arcs that are lost -/

/-- Writes a document on the default machine. -/
def job (d : Document Float) : Except Fault Unit × Sink Float :=
  (Sink.start .default id none).document d "job"

def jobLines (d : Document Float) : List (List Char) := (job d).2.tape.lines.map Prod.fst

/-- A text is that of a document with a program if it can be read and written. -/
theorem exists_document (text : String) (holds : Document Float → Bool)
    (h : (Document.ofText? text.toList : Except Fault (Document Float)).toOption.any
      (fun d => (job d).1.isOk && holds d) = true) :
    ∃ d : Document Float, Document.ofText? text.toList = .ok d ∧ (job d).1 = .ok () ∧
      holds d = true := by
  obtain ⟨d, hread, hd⟩ := Outcome.exists_of_any_toOption h
  obtain ⟨hok, hholds⟩ := (Bool.and_eq_true _ _).mp hd
  obtain ⟨⟨⟩, hresult⟩ := Outcome.isOk_iff.mp hok
  exact ⟨d, hread, hresult, hholds⟩

/-- A curve whose start, end and center are a hundred-thousandth apart. -/
def tinyText : String := "%FSLAX15Y15*%%MOMM*%G36*X0Y0D02*G03X1Y1I1J0D01*G37*M02*"

def tinyLine : List Char := "G03 X0.0000 Y0.0000 I0.0000 J0.0000 F300".toList

theorem exists_tiny : ∃ d : Document Float, Document.ofText? tinyText.toList = .ok d ∧
    (job d).1 = .ok () ∧ tinyLine ∈ jobLines d := by
  obtain ⟨d, hread, hok, hline⟩ := exists_document tinyText
    (fun d => decide (tinyLine ∈ jobLines d)) (by decide +kernel)
  exact ⟨d, hread, hok, of_decide_eq_true hline⟩

/-- The arc of the curve is not too small, its center is within half of a ten-thousandth from its
start, and its line shows no radius. -/
theorem Sink.document_shows_arcs_tiny : ∃ (d : Document Float) (start finish middle : Point Float)
    (clockwise : Bool) (arc : Arc Float),
    Document.ofText? tinyText.toList = .ok d ∧ '\n' ∉ "job".toList ∧ (job d).1 = .ok () ∧
      tinyLine ∈ jobLines d ∧ isArcLine tinyLine = true ∧
      Arc.ofPoints? start finish middle clockwise = some arc ∧
      Within (1 / 20000) (middle.x - start.x) ∧ Within (1 / 20000) (middle.y - start.y) := by
  obtain ⟨d, hread, hok, hline⟩ := exists_tiny
  have harc : isArcLine tinyLine = true := by decide
  have htitle : '\n' ∉ "job".toList := by decide
  have hzero : numberAt? 'I' tinyLine = some 0 ∧ numberAt? 'J' tinyLine = some 0 := by
    decide +kernel
  obtain ⟨before, number, mode, target, center, after, arc, -, hpoints, -, hradius, -⟩ :=
    Sink.document_shows_arcs .default id none d "job" htitle hok tinyLine hline harc
  obtain ⟨hx, hy⟩ := hradius.mp hzero
  exact ⟨d, _, _, _, _, arc, hread, htitle, hok, hline, harc, hpoints, hx, hy⟩

/-- A curve of some hundred-thousandths on a circle of radius one. -/
def shortText : String := "%FSLAX15Y15*%%MOMM*%G36*X0Y0D02*G02X0Y4I100000J0D01*G37*M02*"

/-- Whether the blocks are a region of one curve with different ends. -/
def isOpenCurve : List (Located (Block Float)) → Bool
  | [⟨_, .format _⟩, ⟨_, .units _⟩, ⟨_, .regionStart⟩, ⟨_, .move start⟩,
      ⟨_, .interpolate .clockwise finish (some _)⟩, ⟨_, .regionEnd⟩] => !(start == finish)
  | _ => false

/-- The line of a tiny arc shows no radius. A short arc is shown as a full circle: its line leads
to where the line before it has led, although its ends differ. -/
theorem Sink.arcs_lost :
    (∃ d : Document Float, Document.ofText? tinyText.toList = .ok d ∧ (job d).1 = .ok () ∧
      ∃ line ∈ jobLines d, isArcLine line = true ∧
        numberAt? 'I' line = some 0 ∧ numberAt? 'J' line = some 0) ∧
    ∃ d : Document Float, Document.ofText? shortText.toList = .ok d ∧ isOpenCurve d.blocks = true ∧
      (job d).1 = .ok () ∧ ∃ first second, (jobLines d).filter isPathLine = [first, second] ∧
        isArcLine second = true ∧ shownTarget second = shownTarget first := by
  constructor
  · obtain ⟨d, hread, hok, hline⟩ := exists_tiny
    exact ⟨d, hread, hok, tinyLine, hline, by decide, by decide +kernel⟩
  · obtain ⟨d, hread, hok, hholds⟩ := exists_document shortText
      (fun d => isOpenCurve d.blocks && decide ((jobLines d).filter isPathLine =
        ["G00 X0.0000 Y0.0000".toList, "G02 X0.0000 Y0.0000 I1.0000 J0.0000 F300".toList]))
      (by decide +kernel)
    obtain ⟨hcurve, hlines⟩ := (Bool.and_eq_true _ _).mp hholds
    exact ⟨d, hread, hcurve, hok, _, _, of_decide_eq_true hlines, by decide, by decide +kernel⟩

end BoardMill.GCode
