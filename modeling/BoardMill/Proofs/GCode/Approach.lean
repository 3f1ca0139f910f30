import BoardMill.GCode.Sink
import BoardMill.Gerber.Reading
import BoardMill.Proofs.GCode.Lines
import BoardMill.Proofs.GCode.Path
import BoardMill.Proofs.Outcome
import BoardMill.Proofs.Splits

/-! # Where the tool goes down

A program sends the machine to a place of the board before the tool goes down, with one
exception. Moves and flashes travel first, but a stroke lowers the tool where the machine stands.
A document that opens with a stroke therefore lowers the tool wherever the machine was left.
-/

namespace BoardMill.GCode

/-! ## Plunges behind paths -/

section Items

variable {β : Type} {onPath plunges : β → Bool} {bare : Bool} {first rest : List β}

/-- A plunge has something on the path before it, unless the start is bare and there is no
other plunge before it, either. Then there is nothing on the path. -/
def Approached (onPath plunges : β → Bool) (bare : Bool) (items : List β) : Prop :=
  ∀ before b after, items = before ++ b :: after → plunges b = true →
    (before.any onPath = true ↔ ¬ (bare = true ∧ before.any plunges = false))

namespace Approached

theorem of_quiet (h : first.any plunges = false) : Approached onPath plunges bare first := by
  rintro before b after rfl hb
  simp [hb] at h

theorem behind_quiet (hpath : first.any onPath = false) (hplunge : first.any plunges = false)
    (h : Approached onPath plunges bare rest) : Approached onPath plunges bare (first ++ rest) := by
  refine forall_split_append.mpr ⟨of_quiet hplunge, fun before b after hsplit hb => ?_⟩
  rw [List.any_append, List.any_append, hpath, hplunge, Bool.false_or, Bool.false_or]
  exact h before b after hsplit hb

theorem append_quiet (h : Approached onPath plunges bare first)
    (hplunge : rest.any plunges = false) : Approached onPath plunges bare (first ++ rest) :=
  forall_split_append.mpr ⟨h, fun before b after hsplit hb => by simp [hsplit, hb] at hplunge⟩

/-- Anything may follow behind a path, if a bare start has had its plunge. -/
theorem append (h : Approached onPath plunges bare first) (hpath : first.any onPath = true)
    (hplunge : bare = true → first.any plunges = true) (rest : List β) :
    Approached onPath plunges bare (first ++ rest) := by
  refine forall_split_append.mpr ⟨h, fun before b after hsplit hb => ?_⟩
  rw [List.any_append, List.any_append, hpath, Bool.true_or, iff_true_left rfl]
  rintro ⟨hbare, hnone⟩
  rw [hplunge hbare] at hnone
  cases hnone

theorem map {γ : Type} {f : γ → β} {items : List γ}
    (h : Approached (fun c => onPath (f c)) (fun c => plunges (f c)) bare items) :
    Approached onPath plunges bare (items.map f) := by
  intro before b after hsplit hb
  obtain ⟨front, others, rfl, rfl, hothers⟩ := List.map_eq_append_iff.mp hsplit
  obtain ⟨c, later, rfl, rfl, rfl⟩ := List.map_eq_cons_iff.mp hothers
  rw [List.any_map, List.any_map]
  exact h front c later rfl hb

end Approached

end Items

variable {α : Type}

def Command.plunges : Command α → Bool
  | plunge .. => true
  | _ => false

def isPlungeLine (line : List Char) : Bool := "G01 Z".toList.isPrefixOf line

theorem isPlungeLine_line [Numeral α] (c : Command α) : isPlungeLine c.line = c.plunges := by
  cases c with
  | arc clockwise target offset feed =>
      cases clockwise <;>
        simp [isPlungeLine, Command.plunges, Command.line, Command.text, toString, List.isPrefixOf]
  | _ => simp [isPlungeLine, Command.plunges, Command.line, Command.text, toString, List.isPrefixOf]

namespace Motion

variable [Scalar α] (machine : Machine α) (place : Point α → Point α)

/-- The motions that lower the tool where the machine stands. -/
def cuts : Motion α → Bool
  | cut _ | arc .. => true
  | _ => false

omit [Scalar α] in
theorem approached_engage {c : Command α} (hpath : c.isPath = true) (hplunge : c.plunges = false)
    (rest : List (Command α)) :
    Approached Command.isPath Command.plunges true (engage machine false ++ c :: rest) := by
  change Approached _ _ _ ([Command.spindleOn machine.power] ++
    ([.plunge machine.cutZ machine.plungeFeedRate, c] ++ rest))
  refine .behind_quiet rfl rfl (.append ?_ ?_ ?_ rest)
  · refine forall_split_cons.mpr ⟨fun _ => by simp, forall_split_cons.mpr ⟨fun hc => ?_, ?_⟩⟩
    · cases hplunge.symm.trans hc
    · simp
  · simp [hpath]
  · simp [Command.plunges]

/-- From above the board, a motion goes to its place before it lowers the tool, unless it cuts. -/
theorem approached {m : Motion α} (hmoves : (m.pathCommand? machine place).isSome)
    (rest : List (Command α)) :
    Approached Command.isPath Command.plunges m.cuts (m.commands machine place false ++ rest) := by
  cases m with
  | note remark => simp [pathCommand?] at hmoves
  | travel target =>
      change Approached _ _ _ ([Command.rapid (place target)] ++ rest)
      exact .append (.of_quiet rfl) rfl (by simp [cuts]) rest
  | stamp target =>
      rw [commands, List.append_assoc, List.append_assoc]
      change Approached _ _ _ ([Command.rapidZ machine.safeZ] ++ ([.rapid (place target)] ++ _))
      exact .behind_quiet rfl rfl (.append (.of_quiet rfl) rfl (by simp [cuts]) _)
  | cut target =>
      rw [commands, List.append_assoc]
      exact approached_engage machine rfl rfl rest
  | arc clockwise start target center =>
      rw [commands, List.append_assoc]
      exact approached_engage machine rfl rfl rest

end Motion

end BoardMill.GCode

namespace BoardMill.Gerber

open GCode

variable {α : Type}

/-- The first block that goes anywhere is a stroke. -/
def opensWithStroke (blocks : List (Block α)) : Bool :=
  (blocks.find? fun b => b.target?.isSome).any Block.isStroke

variable [Scalar α] (machine : Machine α) (place : Point α → Point α)

namespace Block

variable {b : Block α} {s : State α} {m : Motion α}

theorem goal?_of_still (hstill : b.target? = none) (h : b.goal? s = some m) :
    ∃ remark, m = .note remark := by
  cases b with
  | select number =>
      obtain ⟨a, -, rfl⟩ := Option.map_eq_some_iff.mp h
      exact ⟨_, rfl⟩
  | flash target => cases hstill
  | move target => cases hstill
  | interpolate mode target center => cases hstill
  | regionStart => cases h; exact ⟨_, rfl⟩
  | regionEnd => cases h; exact ⟨_, rfl⟩
  | polarity p => cases h; exact ⟨_, rfl⟩
  | _ => cases h

/-- The goal of a block that goes somewhere is a motion that does, and a cut for a stroke. -/
theorem exists_goal_of_target? {p : Point α} (hp : b.target? = some p) :
    ∃ m, b.goal? s = some m ∧ (m.pathCommand? machine place).isSome ∧ m.cuts = b.isStroke := by
  cases b with
  | flash target => exact ⟨_, rfl, rfl, rfl⟩
  | move target => exact ⟨_, rfl, rfl, rfl⟩
  | interpolate mode target center =>
      refine ⟨_, rfl, ?_⟩
      rcases s.stroke_cases mode target center with ⟨-, hstroke⟩ | ⟨arc, c, -, -, hstroke⟩ <;>
        rw [hstroke] <;> exact ⟨rfl, rfl⟩
  | _ => cases hp

end Block

/-- From above the board, only a document that opens with a stroke plunges off its path. -/
theorem Document.approached_runFrom {lastLine : Nat} {s : State α}
    {blocks : List (Located (Block α))}
    (hend : (runFrom machine place lastLine false s blocks).ending = .ok ()) :
    Approached Command.isPath Command.plunges (opensWithStroke (blocks.map Located.value))
      (runFrom machine place lastLine false s blocks).commands := by
  induction blocks generalizing s with
  | nil => exact .of_quiet rfl
  | cons b rest ih =>
      obtain ⟨commands, hcommands, -, hlater, hsplit⟩ := runFrom_cons_ok machine place hend
      rw [hsplit]
      cases htarget : b.value.target? with
      | none =>
          have hopens : opensWithStroke ((b :: rest).map Located.value) =
              opensWithStroke (rest.map Located.value) := by
            simp [opensWithStroke, htarget]
          rw [hopens]
          rcases Block.commands_cases hcommands with ⟨-, rfl⟩ | ⟨m, hgoal, rfl⟩
          · exact ih hlater
          · obtain ⟨remark, rfl⟩ := Block.goal?_of_still htarget hgoal
            exact .behind_quiet rfl rfl (ih hlater)
      | some p =>
          obtain ⟨m, hgoal, hmoves, hcuts⟩ :=
            Block.exists_goal_of_target? (s := s) machine place htarget
          have hopens : opensWithStroke ((b :: rest).map Located.value) = m.cuts := by
            simp [opensWithStroke, htarget, hcuts]
          rw [hopens]
          rcases Block.commands_cases hcommands with ⟨hnone, -⟩ | ⟨m', hgoal', rfl⟩
          · cases hgoal.symm.trans hnone
          · cases hgoal.symm.trans hgoal'
            exact Motion.approached machine place hmoves _

/-- The commands of a document behind its title. -/
def Document.steps (d : Document α) : List (Command α) :=
  [.setup, .rapidZ machine.safeZ, .comment (.toolWidth machine.toolWidth)] ++
    (runFrom machine place d.lastLine false (.start d.apertures) d.blocks).commands ++
    trailer machine

theorem Document.program_eq {d : Document α} {title : String}
    (hend : (d.body machine place false title).ending = .ok ()) :
    (d.body machine place false title).program machine =
      .comment (.title title) :: d.steps machine place := by
  rw [Run.program, hend]
  rfl

theorem Document.approached_steps {d : Document α} {title : String}
    (hend : (d.body machine place false title).ending = .ok ()) :
    Approached Command.isPath Command.plunges (opensWithStroke (d.blocks.map Located.value))
      (d.steps machine place) := by
  rw [steps, List.append_assoc]
  exact .behind_quiet rfl rfl ((approached_runFrom machine place hend).append_quiet rfl)

theorem Document.newline_not_mem_steps {α : Type} [Numeral α] [PlainNumeral α]
    (machine : Machine α) (place : Point α → Point α) {d : Document α} {title : String}
    (hend : (d.body machine place false title).ending = .ok ()) :
    ∀ c ∈ d.steps machine place, '\n' ∉ c.line := by
  -- The title of the program may be broken, so it is exchanged for one that is not.
  have hend' : (d.body machine place false "").ending = .ok () := hend
  have hsingle := newline_not_mem_program machine place (by simp : '\n' ∉ "".toList) d
  rw [program_eq machine place hend'] at hsingle
  exact fun c hc => hsingle c (List.mem_cons_of_mem _ hc)

end BoardMill.Gerber

namespace BoardMill.GCode

open Gerber

/-- Behind the title of a complete document program, every line that lowers the tool stands
behind one that moves it along the board, but for the first plunge of a document that opens with
a stroke. Before that one the machine is not sent anywhere. -/
theorem Sink.document_plunges_behind_path (machine : Machine Float)
    (place : Point Float → Point Float) (room : Option Nat) (d : Document Float) (title : String)
    (hok : ((Sink.start machine place room).document d title).1 = .ok ()) :
    ∃ lines, ((Sink.start machine place room).document d title).2.tape.lines =
        ((Command.comment (.title title) : Command Float).lines ++ lines).map (·, true) ∧
      ∀ before line after, lines = before ++ line :: after → isPlungeLine line = true →
        (before.any isPathLine = true ↔
          ¬ (opensWithStroke (d.blocks.map Located.value) = true ∧
            before.any isPlungeLine = false)) := by
  have hend : (d.body machine place false title).ending = .ok () := (start_complete_text hok).1
  have hsingle := Document.newline_not_mem_steps machine place hend
  have htape : ((start machine place room).document d title).2.tape.lines =
      (linesOf ((d.body machine place false title).program machine)).map (·, true) :=
    start_complete_linesOf hok
  refine ⟨(d.steps machine place).map Command.line, ?_, ?_⟩
  · rw [htape, Document.program_eq machine place hend, linesOf, List.flatMap_cons, ← linesOf,
      linesOf_eq_map hsingle]
  · have happroached := Document.approached_steps machine place hend
    refine Approached.map ?_
    simpa only [isPathLine_line, isPlungeLine_line] using happroached

/-- The contour of a region is begun by a move, and its program plunges behind the travel. -/
theorem Sink.document_plunges_behind_path_contour :
    let contour : Document Float :=
      { blocks := [⟨1, .regionStart⟩, ⟨2, .move ⟨1.0, 0.0⟩⟩,
          ⟨3, .interpolate .linear ⟨2.0, 0.0⟩ none⟩, ⟨4, .regionEnd⟩]
        apertures := .empty }
    let written := (Sink.start (.default : Machine Float) id none).document contour "job"
    written.1 = .ok () ∧
      ∃ lines, written.2.tape.lines =
          ((Command.comment (.title "job") : Command Float).lines ++ lines).map (·, true) ∧
        ∀ before line after, lines = before ++ line :: after → isPlungeLine line = true →
          before.any isPathLine = true := by
  intro contour written
  have hok : written.1 = .ok () := (Sink.complete_tape _ _).2
  obtain ⟨lines, htape, hplunges⟩ :=
    Sink.document_plunges_behind_path .default id none contour "job" hok
  refine ⟨hok, lines, htape, fun before line after hsplit hline => ?_⟩
  rw [hplunges before line after hsplit hline]
  rintro ⟨hopens, -⟩
  cases hopens

/-- The program of a region whose contour no move begins lowers the tool before it has gone
anywhere. -/
theorem Sink.document_plunges_unsent :
    let text := "%FSLAX11Y11*%G36*X10Y0D01*G37*M02*".toList
    ∃ d : Document Float, Document.ofText? text = .ok d ∧
      let written := (Sink.start (.default : Machine Float) id none).document d "job"
      written.1 = .ok () ∧
        ∃ before after, written.2.tape.lines.map Prod.fst =
            before ++ "G01 Z-0.1000 F100".toList :: after ∧
          before.any isPathLine = false := by
  intro text
  let opening : List (List Char) := ["; job", "G90 G40 G17 G21", "G00 Z1.0000",
    "; tool width 0.2000", "; region start", "M3 S10"].map String.toList
  have hread : (Document.ofText? text : Except Fault (Document Float)).toOption.any (fun d =>
      let written := (Sink.start (.default : Machine Float) id none).document d "job"
      written.1.isOk && decide (opening ++ ["G01 Z-0.1000 F100".toList] <+:
        written.2.tape.lines.map Prod.fst)) = true := by
    decide +kernel
  obtain ⟨d, hd, haccepted⟩ := Outcome.exists_of_any_toOption hread
  obtain ⟨hok, hlines⟩ := (Bool.and_eq_true _ _).mp haccepted
  obtain ⟨_, hok⟩ := Outcome.isOk_iff.mp hok
  obtain ⟨after, hafter⟩ := of_decide_eq_true hlines
  refine ⟨d, hd, hok, opening, after, ?_, by decide⟩
  rw [← hafter, List.append_assoc]
  rfl

end BoardMill.GCode
