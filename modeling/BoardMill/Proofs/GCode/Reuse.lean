import BoardMill.Proofs.GCode.Endless
import BoardMill.Proofs.GCode.Path
import BoardMill.Proofs.Gerber.Pass

/-! # Using a sink again

A sink remembers whether the tool is in the board, and the opening of a program does not take it
out. A program that is written behind others is therefore the one that a fresh sink gets, unless
the tool was left in the board: it then differs in what leads to its first way along the board,
and nowhere else.
-/

namespace BoardMill.GCode

open Gerber (Block Document Located State)

section Approach

variable {α : Type} (machine : Machine α)

/-- What commands begin their way along the board with: the tool is taken out for a travel, and put
in for a cut. -/
def approach (commands : List (Command α)) (engaged : Bool) : List (Command α) :=
  match commands.find? Command.isPath with
  | none => []
  | some (.rapid _) => retract machine engaged
  | some _ => engage machine engaged

theorem approach_still {commands : List (Command α)} (h : commands.any Command.isPath = false)
    (engaged : Bool) : approach machine commands engaged = [] := by
  have hnone : commands.find? Command.isPath = none := by simpa using h
  rw [approach, hnone]

theorem approach_append_still {first : List (Command α)} (h : first.any Command.isPath = false)
    (second : List (Command α)) (engaged : Bool) :
    approach machine (first ++ second) engaged = approach machine second engaged := by
  have hnone : first.find? Command.isPath = none := by simpa using h
  rw [approach, approach, List.find?_append, hnone, Option.none_or]

/-- Commands that go somewhere need the tool taken out, or put in. -/
theorem approach_cases {commands : List (Command α)} (h : commands.any Command.isPath = true) :
    (∀ engaged, approach machine commands engaged = retract machine engaged) ∨
      ∀ engaged, approach machine commands engaged = engage machine engaged := by
  obtain ⟨c, hc⟩ := Option.isSome_iff_exists.mp (List.find?_isSome.mpr (List.any_eq_true.mp h))
  cases c with
  | rapid target => exact .inl fun engaged => by rw [approach, hc]
  | _ => exact .inr fun engaged => by rw [approach, hc]

namespace Motion

variable [Scalar α] (place : Point α → Point α)

/-- A motion along the board begins with what its way needs. Behind that it does the same, and
leaves the tool in the same place, wherever the tool was. -/
theorem exists_commands_of_moves {m : Motion α} (h : (m.pathCommand? machine place).isSome) :
    ∃ deed later, ∀ engaged,
      (∀ after, m.commands machine place engaged =
        approach machine (m.commands machine place false ++ after) engaged ++ deed) ∧
      engagedAfter engaged (m.commands machine place engaged) = later := by
  cases m with
  | note remark => cases h
  | travel target =>
      refine ⟨[.rapid (place target)], false, fun engaged => ⟨fun _ => rfl, ?_⟩⟩
      rw [commands, engagedAfter_append, engagedAfter_retract]
      rfl
  | stamp target =>
      refine ⟨[.rapidZ machine.safeZ, .rapid (place target)] ++ engage machine false ++
        retract machine true, false, fun engaged => ⟨fun _ => ?_, ?_⟩⟩
      · rw [commands, List.append_assoc, List.append_assoc, List.append_assoc]
        rfl
      · rw [commands, engagedAfter_append, engagedAfter_append, engagedAfter_append,
          engagedAfter_retract]
        rfl
  | cut target =>
      refine ⟨[.cut (place target) machine.feedRate], true, fun engaged => ⟨fun _ => rfl, ?_⟩⟩
      rw [commands, engagedAfter_append, engagedAfter_engage]
      rfl
  | arc clockwise start target center =>
      refine ⟨_, true, fun engaged => ⟨fun _ => rfl, ?_⟩⟩
      rw [commands, engagedAfter_append, engagedAfter_engage]
      rfl

end Motion

end Approach

end BoardMill.GCode

namespace BoardMill.Gerber

open GCode

section Runs

variable {α : Type} [Scalar α] (machine : Machine α) (place : Point α → Point α)

/-- Where the tool is makes a difference for a block only if the block goes somewhere, and then
only for how it begins its way. -/
theorem Block.commands_engaged (b : Block α) (line : Nat) (s : State α) :
    (∃ fault, ∀ engaged, b.commands machine place engaged line s = .error fault) ∨
      (∃ commands, commands.any Command.isPath = false ∧
        ∀ engaged, b.commands machine place engaged line s = .ok commands ∧
          engagedAfter engaged commands = engaged) ∨
      ∃ m : Motion α, (m.pathCommand? machine place).isSome ∧
        ∀ engaged, b.commands machine place engaged line s =
          .ok (m.commands machine place engaged) := by
  simp only [commands_eq]
  rcases b.ready_cases line s with hready | ⟨hready, -⟩
  · rw [hready]
    refine .inr ?_
    cases hgoal : b.goal? s with
    | none => exact .inl ⟨[], rfl, fun _ => ⟨rfl, rfl⟩⟩
    | some m =>
        cases m with
        | note remark => exact .inl ⟨[.comment remark], rfl, fun _ => ⟨rfl, rfl⟩⟩
        | travel target => exact .inr ⟨.travel target, rfl, fun _ => rfl⟩
        | stamp target => exact .inr ⟨.stamp target, rfl, fun _ => rfl⟩
        | cut target => exact .inr ⟨.cut target, rfl, fun _ => rfl⟩
        | arc clockwise start target center =>
            exact .inr ⟨.arc clockwise start target center, rfl, fun _ => rfl⟩
  · rw [hready]
    exact .inl ⟨_, fun _ => rfl⟩

namespace Document

/-- Where the tool is at the start of a run makes a difference for how the run begins its way along
the board, and for nothing else. -/
theorem exists_runFrom_engaged (lastLine : Nat) (s : State α) (blocks : List (Located (Block α))) :
    ∃ before after, ∀ engaged, (runFrom machine place lastLine engaged s blocks).commands =
      before ++ approach machine (runFrom machine place lastLine false s blocks).commands engaged ++
        after := by
  induction blocks generalizing s with
  | nil => exact ⟨[], [], fun _ => rfl⟩
  | cons b rest ih =>
      rcases b.value.commands_engaged machine place b.line s with
        ⟨fault, hcommands⟩ | ⟨commands, hstill, hcommands⟩ | ⟨m, hmoves, hcommands⟩
      · simp only [runFrom, hcommands]
        exact ⟨[], [], fun _ => rfl⟩
      · simp only [runFrom, (hcommands _).1, (hcommands _).2]
        cases s.apply b with
        | error fault =>
            exact ⟨commands, [], fun engaged => by simp [approach_still machine hstill]⟩
        | ok next =>
            obtain ⟨before, after, hrest⟩ := ih next
            refine ⟨commands ++ before, after, fun engaged => ?_⟩
            change commands ++ (runFrom machine place lastLine engaged next rest).commands =
              commands ++ before ++ approach machine (commands ++ _) engaged ++ after
            rw [approach_append_still machine hstill, hrest engaged]
            simp only [List.append_assoc]
      -- Behind the first block that goes somewhere, the tool is where that block leaves it.
      · obtain ⟨deed, later, hdeed⟩ := Motion.exists_commands_of_moves machine place hmoves
        simp only [runFrom, hcommands, (hdeed _).2]
        cases s.apply b with
        | error fault =>
            refine ⟨[], deed, fun engaged => ?_⟩
            have hcommands := (hdeed engaged).1 []
            rw [List.append_nil] at hcommands
            rw [hcommands]
            rfl
        | ok next =>
            let others := (runFrom machine place lastLine later next rest).commands
            refine ⟨[], deed ++ others, fun engaged => ?_⟩
            change m.commands machine place engaged ++ others = [] ++
              approach machine (m.commands machine place false ++ others) engaged ++ (deed ++ others)
            rw [(hdeed engaged).1 others, List.nil_append, List.append_assoc]

theorem body_ending_engaged (d : Document α) (engaged : Bool) (title : String) :
    (d.body machine place engaged title).ending = (d.body machine place false title).ending := by
  rw [← Outcome.failure?_inj, failure?_body, failure?_body]

/-- The same holds for whole programs. -/
theorem exists_program_engaged (d : Document α) (title : String) :
    ∃ before after, ∀ engaged, (d.body machine place engaged title).program machine =
      before ++ approach machine (d.body machine place false title).commands engaged ++ after := by
  obtain ⟨before, after, hrun⟩ :=
    exists_runFrom_engaged machine place d.lastLine (.start d.apertures) d.blocks
  let opening : List (Command α) :=
    preamble machine title ++ [.comment (.toolWidth machine.toolWidth)]
  have hbody (engaged : Bool) : (d.body machine place engaged title).commands =
      opening ++ before ++ approach machine (d.body machine place false title).commands engaged ++
        after := by
    change opening ++ (runFrom machine place d.lastLine engaged (.start d.apertures) d.blocks).commands =
      opening ++ before ++ approach machine (opening ++ _) engaged ++ after
    rw [approach_append_still machine rfl, hrun engaged]
    simp only [List.append_assoc]
  cases hend : (d.body machine place false title).ending with
  | error fault =>
      refine ⟨opening ++ before, after, fun engaged => ?_⟩
      rw [Run.program, body_ending_engaged, hend]
      exact hbody engaged
  | ok _ =>
      refine ⟨opening ++ before, after ++ trailer machine, fun engaged => ?_⟩
      rw [Run.program, body_ending_engaged, hend]
      dsimp only
      rw [hbody engaged]
      simp only [List.append_assoc]

end Document

end Runs

end BoardMill.Gerber

namespace BoardMill.GCode

open Gerber (Block Document Located State)

variable {α : Type} [Numeral α]

/-- What a sink may be used for. -/
inductive Use (α : Type) where
  | comment (text : String)
  | preamble (title : String)
  | trailer
  | block (b : Located (Block α)) (state : State α)
  | document (d : Document α) (title : String)

/-- Uses a sink. -/
def Sink.use (s : Sink α) : Use α → Except Fault Unit × Sink α
  | .comment text => s.emit [.comment (.title text)]
  | .preamble title => s.emit (GCode.preamble s.machine title)
  | .trailer => s.trailer
  | .block b state => s.block b state
  | .document d title => s.document d title

/-- Uses a sink time after time, whatever comes of it. -/
def Sink.useAll (s : Sink α) (uses : List (Use α)) : Sink α := uses.foldl (fun s u => (s.use u).2) s

variable (machine : Machine α) (place : Point α → Point α)

namespace Use

/-- The commands that a use comes to. -/
def commands (engaged : Bool) : Use α → List (Command α)
  | comment text => [.comment (.title text)]
  | preamble title => GCode.preamble machine title
  | trailer => GCode.trailer machine
  | block b state => (b.value.commands machine place engaged b.line state).toOption.getD []
  | document d title => (d.body machine place engaged title).program machine

/-- The commands that uses come to one after the other. -/
def allCommands (engaged : Bool) : List (Use α) → List (Command α)
  | [] => []
  | u :: rest =>
    let commands := u.commands machine place engaged
    commands ++ allCommands (engagedAfter engaged commands) rest

/-- A use that brings a program to its end. -/
def ends : Use α → Bool
  | trailer => true
  | document d title => (d.body machine place false title).ending.isOk
  | _ => false

end Use

omit [Numeral α] in
theorem engagedAfter_trailer (engaged : Bool) : engagedAfter engaged (trailer machine) = false := rfl

omit [Numeral α] in
/-- A program that has its end leaves the tool out of the board. -/
theorem engagedAfter_program {run : Run α} (h : run.ending = .ok ()) (engaged : Bool) :
    engagedAfter engaged (run.program machine) = false := by
  rw [Run.program, h, engagedAfter_append, engagedAfter_trailer]

namespace Sink

theorem use_endless {s : Sink α} (h : s.tape.room = none) (u : Use α) :
    (s.use u).2 = s.behind (u.commands s.machine s.place s.engaged) := by
  cases u with
  | comment text => rw [use, emit_endless h, Use.commands]
  | preamble title => rw [use, emit_endless h, Use.commands]
  | trailer =>
      have hroom : { s with engaged := false }.tape.room = none := h
      rw [use, trailer, emit_endless hroom, Use.commands]
      rfl
  | block b state =>
      rw [use, block, Use.commands]
      cases b.value.commands s.machine s.place s.engaged b.line state with
      | error fault => exact (behind_nil s).symm
      | ok commands =>
          dsimp only
          rw [emit_endless h]
          rfl
  | document d title => rw [use, document, complete_endless h, Use.commands]

theorem useAll_endless {s : Sink α} (h : s.tape.room = none) (uses : List (Use α)) :
    s.useAll uses = s.behind (Use.allCommands s.machine s.place s.engaged uses) := by
  induction uses generalizing s with
  | nil => exact (behind_nil s).symm
  | cons u rest ih =>
      have hnext : (s.behind (u.commands s.machine s.place s.engaged)).tape.room = none := h
      change (s.use u).2.useAll rest = _
      rw [use_endless h, ih hnext, Use.allCommands, behind_append]
      rfl

theorem engaged_of_ends {s : Sink α} (h : s.tape.room = none) {u : Use α}
    (hends : u.ends s.machine s.place = true) : (s.use u).2.engaged = false := by
  rw [use_endless h]
  cases u with
  | trailer => rfl
  | document d title =>
      obtain ⟨_, hend⟩ := Outcome.isOk_iff.mp hends
      refine engagedAfter_program s.machine ?_ s.engaged
      rw [Document.body_ending_engaged, hend]
  | _ => cases hends

theorem engaged_useAll_of_ends {s : Sink α} (h : s.tape.room = none) {uses : List (Use α)}
    (hs : s.engaged = false) (hends : uses.getLast?.all (Use.ends s.machine s.place) = true) :
    (s.useAll uses).engaged = false := by
  rcases List.eq_nil_or_concat uses with rfl | ⟨earlier, last, rfl⟩
  · exact hs
  · rw [List.concat_eq_append, List.getLast?_concat] at hends
    rw [List.concat_eq_append, useAll, List.foldl_concat, ← useAll, useAll_endless h]
    let later := s.behind (Use.allCommands s.machine s.place s.engaged earlier)
    have hroom : later.tape.room = none := h
    exact engaged_of_ends hroom hends

theorem toList_behind (s : Sink α) (commands : List (Command α)) :
    (s.behind commands).tape.bytes.toList = s.tape.bytes.toList ++ programBytes commands := by
  simp [behind]

/-- A program is written behind what is there, as far as it goes. -/
theorem toList_document_endless {s : Sink α} (h : s.tape.room = none) (d : Document α)
    (title : String) :
    (s.document d title).2.tape.bytes.toList = s.tape.bytes.toList ++
      programBytes ((d.body s.machine s.place s.engaged title).program s.machine) := by
  rw [document, complete_endless h, toList_behind]

theorem programBytes_ne_nil {commands : List (Command α)} (h : commands ≠ []) :
    programBytes commands ≠ [] := by
  obtain ⟨c, rest, rfl⟩ := List.exists_cons_of_ne_nil h
  simp [programBytes, lineBytes, Utf8.encode, Utf8.encodeChar]

/-- What leads to a way along the board depends on where the tool is. -/
theorem programBytes_approach_ne {commands : List (Command α)}
    (h : commands.any Command.isPath = true) (before after : List (Command α)) :
    programBytes (before ++ approach machine commands true ++ after) ≠
      programBytes (before ++ approach machine commands false ++ after) := by
  have hretract : programBytes (retract machine true) ≠ [] := programBytes_ne_nil (by simp [retract])
  have hengage : programBytes (engage machine false) ≠ [] := programBytes_ne_nil (by simp [engage])
  simp only [programBytes_append, ne_eq, List.append_cancel_left_eq, List.append_cancel_right_eq]
  rcases approach_cases machine h with hway | hway <;> rw [hway, hway]
  · exact hretract
  · exact hengage.symm

/-- A program that is written behind other uses of a sink ends as on a fresh sink, and its text is
the same up to what leads to its first way along the board. The whole text is the same exactly if
the tool was left out of the board, or the program goes nowhere. The tool is where the commands so
far leave it, and out of the board if the last use brought a program to its end. -/
theorem document_behind_uses (machine : Machine Float) (place : Point Float → Point Float)
    (uses : List (Use Float)) (d : Document Float) (title : String) :
    let fresh := start machine place none
    let used := fresh.useAll uses
    let commands := (d.body machine place false title).commands
    let text (s : Sink Float) : List UInt8 := s.tape.bytes.toList
    (used.document d title).1 = (fresh.document d title).1 ∧
    (∃ before after,
      text (fresh.document d title).2 =
        programBytes (before ++ approach machine commands false ++ after) ∧
      text (used.document d title).2 =
        text used ++ programBytes (before ++ approach machine commands used.engaged ++ after)) ∧
    (text (used.document d title).2 = text used ++ text (fresh.document d title).2 ↔
      used.engaged = false ∨ commands.any Command.isPath = false) ∧
    text used = programBytes (Use.allCommands machine place false uses) ∧
    used.engaged = engagedAfter false (Use.allCommands machine place false uses) ∧
    (uses.getLast?.all (Use.ends machine place) = true → used.engaged = false) := by
  intro fresh used commands text
  have hused : used = fresh.behind (Use.allCommands machine place false uses) := useAll_endless rfl uses
  have hroom : used.tape.room = none := by rw [hused]; rfl
  obtain ⟨before, after, hprogram⟩ := Document.exists_program_engaged machine place d title
  have hfresh : text (fresh.document d title).2 =
      programBytes (before ++ approach machine commands false ++ after) := by
    exact (toList_document_endless rfl d title).trans (congrArg programBytes (hprogram false))
  have hwritten : text (used.document d title).2 =
      text used ++ programBytes (before ++ approach machine commands used.engaged ++ after) := by
    rw [← hprogram, hused]
    exact toList_document_endless rfl d title
  refine ⟨?_, ⟨before, after, hfresh, hwritten⟩, ?_, ?_, ?_, ?_⟩
  · rw [document, complete_endless hroom, document, complete_endless rfl, hused]
    exact Document.body_ending_engaged machine place d _ title
  · rw [hwritten, hfresh, List.append_cancel_left_eq]
    cases hengaged : used.engaged with
    | false => simp
    | true =>
        cases hpath : commands.any Command.isPath with
        | false => simp [approach_still machine hpath]
        | true => simpa using programBytes_approach_ne machine hpath before after
  · rw [hused]
    exact toList_behind fresh _
  · rw [hused]
    rfl
  · have hout : fresh.engaged = false := rfl
    exact engaged_useAll_of_ends rfl hout

/-- Behind a whole program the contour of a region is written as on a fresh sink. -/
theorem document_behind_uses_contour :
    let contour : Document Float :=
      { blocks := [⟨1, .regionStart⟩, ⟨2, .interpolate .linear ⟨2.0, 0.0⟩ none⟩, ⟨3, .regionEnd⟩]
        apertures := .empty }
    let fresh : Sink Float := start .default id none
    let used := fresh.useAll [.comment "job", .document contour "first"]
    used.engaged = false ∧
      (used.document contour "next").2.tape.bytes.toList =
        used.tape.bytes.toList ++ (fresh.document contour "next").2.tape.bytes.toList := by
  intro contour fresh used
  obtain ⟨-, -, htext, -, -, hends⟩ := document_behind_uses .default id
    [.comment "job", .document contour "first"] contour "next"
  have hengaged : used.engaged = false := hends (by decide +kernel)
  exact ⟨hengaged, htext.mpr (.inl hengaged)⟩

/-- A program that stops within a cut, because its region is left open, keeps the tool in the
board. The next one then cuts without lowering it. -/
theorem document_behind_open_region :
    let region (target : Point Float) : List (Located (Block Float)) :=
      [⟨1, .regionStart⟩, ⟨2, .interpolate .linear target none⟩]
    let broken : Document Float := ⟨region ⟨1.0, 0.0⟩, .empty⟩
    let contour : Document Float := ⟨region ⟨2.0, 0.0⟩ ++ [⟨3, .regionEnd⟩], .empty⟩
    let opening := "; next\nG90 G40 G17 G21\nG00 Z1.0000\n; tool width 0.2000\n; region start\n"
    let ending := "G01 X2.0000 Y0.0000 F300\n; region end\nG00 Z1.0000\nM5\nM30\n"
    let fresh : Sink Float := start .default id none
    let used := fresh.useAll [.document broken "first"]
    (fresh.document broken "first").1 =
        .error (.invalidRegion 2 "region not closed before end of file") ∧
      (fresh.document contour "next").2.tape.bytes.toList =
        Utf8.encode (opening ++ "M3 S10\nG01 Z-0.1000 F100\n" ++ ending).toList ∧
      (used.document contour "next").2.tape.bytes.toList =
        used.tape.bytes.toList ++ Utf8.encode (opening ++ ending).toList := by
  intro region broken contour opening ending fresh used
  have hused : used = fresh.behind (Use.allCommands .default id false [.document broken "first"]) :=
    useAll_endless rfl _
  refine ⟨?_, ?_, ?_⟩
  · rw [document, complete_endless rfl]
    decide +kernel
  · rw [toList_document_endless rfl]
    decide +kernel
  · rw [hused, toList_document_endless rfl, List.append_cancel_left_eq]
    decide +kernel

end Sink

end BoardMill.GCode
