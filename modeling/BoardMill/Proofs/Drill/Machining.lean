import BoardMill.Proofs.Drill.Passes
import BoardMill.Proofs.GCode.Lines

/-! # Machining of drill programs

A drill program becomes a machine program step by step. Each step finds the machine clear of
the board and leaves it so, pauses or plunges at most once, and takes a fixed number of
commands. What holds for the steps adds up to what holds for the whole program.
-/

namespace BoardMill.GCode

variable {α : Type} [Numeral α]

/-- The spindle is off, and the last height was that of travel or that of tool changes. -/
structure Posture.Clear (machine : Machine α) (p : Posture) : Prop where
  off : p.spinning = false
  height : p.heightLine = some (Command.rapidZ machine.safeZ).line ∨
    p.heightLine = some (Command.rapidZ machine.changeZ).line

/-- Every travel among the commands finds the machine clear, and so does what follows them. -/
structure KeepsClear (machine : Machine α) (before : Posture) (commands : List (Command α)) :
    Prop where
  travels : ∀ front c rest, commands = front ++ c :: rest → c.Travels →
    (front.foldl Posture.after before).Clear machine
  ends : (commands.foldl Posture.after before).Clear machine

namespace KeepsClear

variable {machine : Machine α} {q : Posture}

theorem nil (h : q.Clear machine) : KeepsClear machine q [] where
  travels := fun front c rest hsplit => by simp at hsplit
  ends := h

theorem cons {c : Command α} {rest : List (Command α)} (hc : c.Travels → q.Clear machine)
    (hrest : KeepsClear machine (q.after c) rest) : KeepsClear machine q (c :: rest) where
  travels := forall_split_cons.mpr ⟨hc, hrest.travels⟩
  ends := hrest.ends

theorem append {first second : List (Command α)} (hfirst : KeepsClear machine q first)
    (hsecond : KeepsClear machine (first.foldl Posture.after q) second) :
    KeepsClear machine q (first ++ second) where
  travels := by
    refine forall_split_append.mpr ⟨hfirst.travels, fun front c rest hsplit htravels => ?_⟩
    rw [List.foldl_append]
    exact hsecond.travels front c rest hsplit htravels
  ends := by
    rw [List.foldl_append]
    exact hsecond.ends

/-- Commands that do not travel keep the machine clear if they leave it so. -/
theorem of_ends {commands : List (Command α)} (hstay : ∀ c ∈ commands, ¬ c.Travels)
    (hends : (commands.foldl Posture.after q).Clear machine) : KeepsClear machine q commands where
  travels := fun front c rest hsplit htravels =>
    absurd htravels (hstay c (by rw [hsplit]; exact List.mem_append_right _ List.mem_cons_self))
  ends := hends

end KeepsClear

end BoardMill.GCode

namespace BoardMill.Drill

open GCode (Command Posture Run Sink KeepsClear linesOf isPauseOrPlunge)
open Gerber (visitsFrom visitsFrom_append)

variable {α : Type}

def Step.isChange : Step α → Bool
  | change _ => true
  | _ => false

def Step.isUnload : Step α → Bool
  | unload => true
  | _ => false

/-- The line of a step at which the operator is waited for, or the tool goes into the board. -/
def Step.pauseOrPlunge? [Numeral α] (machine : Machine α) : Step α → Option (List Char)
  | .change _ => some "M0".toList
  | .drill _ => some (Command.plunge machine.drillZ machine.drillFeedRate).line
  | .unload => none

namespace Program

variable {p : Program α}

/-! ## The commands of a program -/

section Commands

variable [Scalar α] (machine : Machine α) (place : Point α → Point α)

/-- The commands of steps behind others. -/
def commandsFrom (p : Program α) (machine : Machine α) (place : Point α → Point α)
    (before steps : List (Step α)) : List (Command α) :=
  (visitsFrom before steps).flatMap fun (before, s) =>
    p.commandsOf machine place (p.toolAfter (before ++ [s])) s

theorem commandsFrom_cons (before : List (Step α)) (s : Step α) (rest : List (Step α)) :
    p.commandsFrom machine place before (s :: rest) =
      p.commandsOf machine place (p.toolAfter (before ++ [s])) s ++
        p.commandsFrom machine place (before ++ [s]) rest :=
  List.flatMap_cons

theorem commandsFrom_append (before first second : List (Step α)) :
    p.commandsFrom machine place before (first ++ second) =
      p.commandsFrom machine place before first ++
        p.commandsFrom machine place (before ++ first) second := by
  rw [commandsFrom, visitsFrom_append, List.flatMap_append]
  rfl

theorem runFrom_commands {before steps : List (Step α)} (h : p.Clean (before ++ steps)) :
    (p.runFrom machine place (p.toolAfter before) steps).commands =
      p.commandsFrom machine place before steps := by
  induction steps generalizing before with
  | nil => rfl
  | cons s rest ih =>
      rw [← List.singleton_append, ← List.append_assoc] at h
      rw [runFrom, step_eq, load_eq_ok h.of_append, commandsFrom_cons, ← ih h]
      rfl

/-- A change that does not offend has the commands for its tool. -/
theorem Clean.commandsOf_change {before after : List (Step α)} {number : Nat}
    (h : p.Clean (before ++ .change number :: after)) :
    ∃ tool, p.tools.get? number = some tool ∧
      p.commandsOf machine place (p.toolAfter (before ++ [.change number])) (.change number) =
        changeCommands machine p.units number tool := by
  obtain ⟨tool, htool⟩ := h.exists_tool_of_change
  refine ⟨tool, htool, ?_⟩
  rw [toolAfter, loadedAfter_concat]
  simp [Step.takes?, commandsOf, htool]

/-- Changes take five commands, holes six, and putting a tool away two. -/
theorem length_commandsFrom {before steps : List (Step α)} (h : p.Clean (before ++ steps)) :
    (p.commandsFrom machine place before steps).length =
      5 * steps.countP Step.isChange + 6 * steps.countP Step.isDrill +
        2 * steps.countP Step.isUnload := by
  induction steps generalizing before with
  | nil => rfl
  | cons s rest ih =>
      have hrest : p.Clean (before ++ [s] ++ rest) := by simpa using h
      rw [commandsFrom_cons, List.length_append, ih hrest]
      cases s with
      | change number =>
          obtain ⟨tool, -, hcommands⟩ := h.commandsOf_change machine place
          rw [hcommands]
          simp [changeCommands, List.countP_cons, Step.isChange, Step.isDrill, Step.isUnload]
          omega
      | drill hole =>
          simp [commandsOf, drillCommands, List.countP_cons, Step.isChange, Step.isDrill, Step.isUnload]
          omega
      | unload =>
          simp [commandsOf, unloadCommands, List.countP_cons, Step.isChange, Step.isDrill, Step.isUnload]
          omega

end Commands

/-! ## Steps -/

section Steps

variable [Numeral α] (machine : Machine α) (place : Point α → Point α)

/-- A step keeps a clear machine clear. -/
theorem keepsClear_commandsOf {q : Posture} (hq : q.Clear machine) (loaded : Option (Tool α))
    (s : Step α) : KeepsClear machine q (p.commandsOf machine place loaded s) := by
  cases s with
  | change number =>
      cases loaded with
      | none => exact .nil hq
      | some tool =>
          -- The tool climbs to the height of changes before it travels.
          refine .cons (fun h => h.elim) (.cons (fun h => h.elim) (.cons (fun _ => ?_) ?_))
          · exact ⟨hq.off, .inr rfl⟩
          · exact .of_ends (by simp [Command.Travels]) ⟨hq.off, .inl rfl⟩
  | drill hole =>
      refine .cons (fun h => h.elim) (.cons (fun _ => ⟨hq.off, .inl rfl⟩) ?_)
      exact .of_ends (by simp [Command.Travels]) ⟨rfl, .inl rfl⟩
  | unload => exact .of_ends (by simp [unloadCommands, commandsOf, Command.Travels]) ⟨rfl, .inr rfl⟩

theorem keepsClear_commandsFrom {q : Posture} (hq : q.Clear machine) (before steps : List (Step α)) :
    KeepsClear machine q (p.commandsFrom machine place before steps) := by
  induction steps generalizing before q with
  | nil => exact .nil hq
  | cons s rest ih =>
      rw [commandsFrom_cons]
      have hstep := keepsClear_commandsOf (p := p) machine place hq (p.toolAfter (before ++ [s])) s
      exact hstep.append (ih hstep.ends _)

/-- Each step has its pause or plunge, in their order. -/
theorem filter_commandsFrom {before steps : List (Step α)} (h : p.Clean (before ++ steps)) :
    ((p.commandsFrom machine place before steps).filter Command.pausesOrPlunges).map Command.line =
      steps.filterMap (Step.pauseOrPlunge? machine) := by
  induction steps generalizing before with
  | nil => rfl
  | cons s rest ih =>
      have hrest : p.Clean (before ++ [s] ++ rest) := by simpa using h
      rw [commandsFrom_cons, List.filter_append, List.map_append, ih hrest]
      cases s with
      | change number =>
          obtain ⟨tool, -, hcommands⟩ := h.commandsOf_change machine place
          rw [hcommands]
          rfl
      | drill hole => rfl
      | unload => rfl

end Steps

/-! ## Lines -/

/-- The comment of a change is read back as two lines: the shape of the tool is a line feed. -/
def breaksLine (p : Program α) : Step α → Bool
  | .change number => (p.tools.get? number).any (·.shape == '\n')
  | _ => false

section Lines

variable [Numeral α] [PlainNumeral α] (machine : Machine α) (place : Point α → Point α)

omit [PlainNumeral α] in
theorem legible_of_mem_preamble {title : String} (htitle : '\n' ∉ title.toList) :
    ∀ c ∈ GCode.preamble machine title, c.Legible := by
  rw [GCode.preamble, List.forall_mem_cons]
  exact ⟨Command.legible_title htitle, by simp [Command.Legible.plain]⟩

theorem legible_of_mem_commandsOf (loaded : Option (Tool α)) (s : Step α) :
    ∀ c ∈ p.commandsOf machine place loaded s, c.Legible := by
  cases s with
  | change number =>
      cases loaded with
      | none => exact fun _ hc => absurd hc List.not_mem_nil
      | some tool =>
          refine List.forall_mem_cons.mpr ⟨Command.legible_tool _ _ _, ?_⟩
          simp [Command.Legible.plain]
  | drill hole => simp [commandsOf, drillCommands, Command.Legible.plain]
  | unload => simp [commandsOf, unloadCommands, Command.Legible.plain]

theorem legible_of_mem_commandsFrom (before steps : List (Step α)) :
    ∀ c ∈ p.commandsFrom machine place before steps, c.Legible := by
  intro c hc
  obtain ⟨⟨before, s⟩, -, hc⟩ := List.mem_flatMap.mp hc
  exact legible_of_mem_commandsOf machine place _ s c hc

/-- A step has a line for each command, and one more if its comment is broken. -/
theorem length_linesOf_commandsFrom {before steps : List (Step α)}
    (h : p.Clean (before ++ steps)) :
    (linesOf (p.commandsFrom machine place before steps)).length =
      (p.commandsFrom machine place before steps).length + steps.countP p.breaksLine := by
  induction steps generalizing before with
  | nil => rfl
  | cons s rest ih =>
      have hrest : p.Clean (before ++ [s] ++ rest) := by simpa using h
      have hstep : (linesOf (p.commandsOf machine place (p.toolAfter (before ++ [s])) s)).length =
          (p.commandsOf machine place (p.toolAfter (before ++ [s])) s).length +
            if p.breaksLine s then 1 else 0 := by
        cases s with
        | change number =>
            obtain ⟨tool, htool, hcommands⟩ := h.commandsOf_change machine place
            rw [hcommands, breaksLine, htool]
            by_cases hshape : tool.shape = '\n' <;>
              simp [linesOf, changeCommands, Command.lines_tool, Command.lines_of_ne_comment, hshape]
        | drill hole =>
            simp [linesOf, commandsOf, drillCommands, Command.lines_of_ne_comment, breaksLine]
        | unload =>
            simp [linesOf, commandsOf, unloadCommands, Command.lines_of_ne_comment, breaksLine]
      rw [commandsFrom_cons, GCode.linesOf_append, List.length_append, List.length_append, hstep,
        ih hrest, List.countP_cons]
      omega

end Lines

/-! ## Whole programs -/

section Programs

variable [Numeral α] (machine : Machine α) (place : Point α → Point α)

/-- The commands of a program of which no step offends. -/
def commands (p : Program α) (machine : Machine α) (place : Point α → Point α) (title : String) :
    List (Command α) :=
  GCode.preamble machine title ++ p.commandsFrom machine place [] p.steps ++ GCode.trailer machine

theorem body_program {title : String} (hend : (p.body machine place title).ending = .ok ()) :
    (p.body machine place title).program machine = p.commands machine place title := by
  rw [Run.program, hend, commands,
    ← runFrom_commands machine place ((ending_eq_ok_iff machine place).mp hend)]
  rfl

/-- What was written of a drill program if all went well. -/
theorem drilling_written {room : Option Nat} {title : String}
    (hok : ((Sink.start machine place room).drilling p title).1 = .ok ()) :
    p.Clean p.steps ∧
      ((Sink.start machine place room).drilling p title).2.tape.lines =
        (linesOf (p.commands machine place title)).map (·, true) ∧
      ((Sink.start machine place room).drilling p title).2.lines =
        (p.commands machine place title).length := by
  have hend : (p.body machine place title).ending = .ok () := (Sink.start_complete_text hok).1
  rw [← body_program machine place hend, ← Nat.zero_add (List.length _)]
  exact ⟨(ending_eq_ok_iff machine place).mp hend, Sink.start_complete_linesOf hok,
    Sink.complete_lines hok⟩

/-- A program keeps the machine clear from its preamble on. -/
theorem keepsClear_commands (title : String) :
    KeepsClear machine .start (p.commands machine place title) := by
  have hpreamble : KeepsClear machine .start (GCode.preamble machine title) :=
    .of_ends (by simp [GCode.preamble, Command.Travels]) ⟨rfl, .inl rfl⟩
  refine .append (.append hpreamble ?_) (.of_ends ?_ ⟨rfl, .inl rfl⟩)
  · exact keepsClear_commandsFrom machine place hpreamble.ends [] p.steps
  · simp [GCode.trailer, Command.Travels]

theorem filter_commands (hclean : p.Clean ([] ++ p.steps)) (title : String) :
    ((p.commands machine place title).filter Command.pausesOrPlunges).map Command.line =
      p.steps.filterMap (Step.pauseOrPlunge? machine) := by
  rw [commands, List.filter_append, List.filter_append, List.map_append, List.map_append,
    filter_commandsFrom machine place hclean]
  exact List.append_nil _

theorem length_commands (hclean : p.Clean ([] ++ p.steps)) (title : String) :
    (p.commands machine place title).length =
      6 + 5 * p.steps.countP Step.isChange + 6 * p.holes + 2 * p.steps.countP Step.isUnload := by
  rw [commands, List.length_append, List.length_append,
    length_commandsFrom machine place hclean]
  simp [GCode.preamble, GCode.trailer, holes]
  omega

/-- A hole is drilled behind the pause for its tool, with only holes of the same tool in
between. -/
theorem Clean.exists_hole {before after : List (Step α)} {hole : Point α}
    (h : p.Clean (before ++ .drill hole :: after)) :
    ∃ earlier number since first middle last,
      before = earlier ++ .change number :: since ∧ (∀ s ∈ since, s.isDrill) ∧
      p.commandsFrom machine place [] (before ++ .drill hole :: after) =
        first ++ .pause :: middle ++
          [.rapid (place (p.units.pointToMm hole)), .spindleOn machine.spindleSpeed,
            .plunge machine.drillZ machine.drillFeedRate] ++ last ∧
      (first.filter Command.pausesOrPlunges).map Command.line =
        earlier.filterMap (Step.pauseOrPlunge? machine) ∧
      (middle.filter Command.pausesOrPlunges).map Command.line =
        since.filterMap (Step.pauseOrPlunge? machine) := by
  have hloaded : (loadedAfter before).isSome :=
    h.of_append.isSome_toolAfter.mp (Option.isSome_iff_exists.mpr h.exists_tool)
  obtain ⟨number, hnumber⟩ := Option.isSome_iff_exists.mp hloaded
  obtain ⟨earlier, since, rfl, hsince⟩ := exists_change_of_loadedAfter hnumber
  obtain ⟨tool, -, hchange⟩ := h.of_append.commandsOf_change machine place
  have hearlier : p.Clean ([] ++ earlier) := h.of_append.of_append
  have hbefore : p.Clean (earlier ++ [.change number] ++ since) := by simpa using h.of_append
  refine ⟨earlier, number, since,
    p.commandsFrom machine place [] earlier ++
      [.comment (.tool number tool.shape (p.units.toMm tool.size)), .rapidZ machine.changeZ, .home],
    .rapidZ machine.safeZ :: p.commandsFrom machine place (earlier ++ [.change number]) since ++
      [.rapidZ machine.safeZ],
    [.rapidZ machine.safeZ, .spindleOff] ++ p.commandsFrom machine place
      (earlier ++ .change number :: since ++ [.drill hole]) after,
    rfl, hsince, ?_, ?_, ?_⟩
  · rw [commandsFrom_append, commandsFrom_append, commandsFrom_cons, commandsFrom_cons, List.nil_append,
      hchange]
    simp [changeCommands, commandsOf, drillCommands]
  · rw [List.filter_append, List.map_append, filter_commandsFrom machine place hearlier]
    exact List.append_nil _
  · rw [List.cons_append, List.filter_cons_of_neg (by simp [Command.pausesOrPlunges]),
      List.filter_append, List.map_append, filter_commandsFrom machine place hbefore]
    exact List.append_nil _

variable [PlainNumeral α] {title : String}

theorem legible_of_mem_commands (htitle : '\n' ∉ title.toList) :
    ∀ c ∈ p.commands machine place title, c.Legible := by
  simp only [commands, List.forall_mem_append]
  refine ⟨⟨legible_of_mem_preamble machine htitle, ?_⟩, ?_⟩
  · exact legible_of_mem_commandsFrom machine place [] p.steps
  · simp [GCode.trailer, Command.Legible.plain]

theorem length_linesOf_commands (htitle : '\n' ∉ title.toList)
    (hclean : p.Clean ([] ++ p.steps)) :
    (linesOf (p.commands machine place title)).length =
      (p.commands machine place title).length + p.steps.countP p.breaksLine := by
  simp only [commands, GCode.linesOf_append, List.length_append,
    length_linesOf_commandsFrom machine place hclean]
  simp [GCode.preamble, GCode.trailer, linesOf, Command.lines_title htitle,
    Command.lines_of_ne_comment]
  omega

/-- Among the lines, too, a hole is drilled behind the pause for its tool. -/
theorem Clean.exists_hole_lines (htitle : '\n' ∉ title.toList) {before after : List (Step α)}
    {hole : Point α} (hclean : p.Clean p.steps)
    (hsplit : p.steps = before ++ .drill hole :: after) :
    ∃ earlier number since first middle last,
      before = earlier ++ .change number :: since ∧ (∀ s ∈ since, s.isDrill) ∧
      linesOf (p.commands machine place title) = first ++ "M0".toList :: middle ++
        [(Command.rapid (place (p.units.pointToMm hole))).line,
          (Command.spindleOn machine.spindleSpeed : Command α).line,
          (Command.plunge machine.drillZ machine.drillFeedRate).line] ++ last ∧
      first.filter isPauseOrPlunge = earlier.filterMap (Step.pauseOrPlunge? machine) ∧
      middle.filter isPauseOrPlunge = since.filterMap (Step.pauseOrPlunge? machine) := by
  have hlegible := legible_of_mem_commands (p := p) machine place htitle
  rw [hsplit] at hclean
  obtain ⟨earlier, number, since, first, middle, last, hbefore, hsince, hhole, hfirst, hmiddle⟩ :=
    hclean.exists_hole machine place
  rw [commands, hsplit, hhole] at hlegible ⊢
  refine ⟨earlier, number, since, linesOf (GCode.preamble machine title ++ first), linesOf middle,
    linesOf (last ++ GCode.trailer machine), hbefore, hsince, ?_, ?_, ?_⟩
  · simp [linesOf, Command.lines_of_ne_comment, Command.line, Command.text]
  · have hopening : ∀ c ∈ GCode.preamble machine title ++ first, c.Legible := fun c hc =>
      hlegible c (by simp only [List.mem_append] at hc ⊢; tauto)
    rw [GCode.filter_linesOf hopening, List.filter_append, List.map_append, hfirst]
    rfl
  · have hbetween : ∀ c ∈ middle, c.Legible := fun c hc =>
      hlegible c (by simp only [List.mem_append, List.mem_cons]; tauto)
    rw [GCode.filter_linesOf hbetween, hmiddle]

end Programs

end Program

/-- What is written of a drill program, if all goes well, pauses once for each change and plunges
once for each hole, in the order of the steps. A hole is drilled where it lies, with the spindle
turned on there, behind the pause for its tool. Every travel finds the spindle off behind a climb
to the height of travel or that of tool changes, and the end leaves the machine raised. The count
of lines is that of the lines written, but for the comments that the shape of a tool breaks. -/
theorem Program.drilling_machines_steps (machine : Machine Float)
    (place : Point Float → Point Float) (room : Option Nat) (p : Program Float) (title : String)
    (htitle : '\n' ∉ title.toList)
    (hok : ((Sink.start machine place room).drilling p title).1 = .ok ()) :
    let written := ((Sink.start machine place room).drilling p title).2
    let lines := written.tape.lines.map Prod.fst
    written.tape.lines = lines.map (·, true) ∧
    lines.filter isPauseOrPlunge = p.steps.filterMap (Step.pauseOrPlunge? machine) ∧
    (∀ before hole after, p.steps = before ++ .drill hole :: after →
      ∃ earlier number since first middle last,
        before = earlier ++ .change number :: since ∧ (∀ s ∈ since, s.isDrill) ∧
        lines = first ++ "M0".toList :: middle ++
          [(Command.rapid (place (p.units.pointToMm hole))).line,
            (Command.spindleOn machine.spindleSpeed : Command Float).line,
            (Command.plunge machine.drillZ machine.drillFeedRate).line] ++ last ∧
        first.filter isPauseOrPlunge = earlier.filterMap (Step.pauseOrPlunge? machine) ∧
        middle.filter isPauseOrPlunge = since.filterMap (Step.pauseOrPlunge? machine)) ∧
    (∀ before line after, lines = before ++ line :: after → "G00 X".toList <+: line →
      (Posture.start.readAll before).Clear machine) ∧
    lines.getLast? = some "M30".toList ∧
    Posture.start.readAll lines = .raised machine ∧
    written.lines = 6 + 5 * p.steps.countP Step.isChange + 6 * p.holes +
      2 * p.steps.countP Step.isUnload ∧
    lines.length = written.lines + p.steps.countP p.breaksLine := by
  intro written lines
  obtain ⟨hclean, htape, hcount⟩ := drilling_written machine place hok
  have hlegible := legible_of_mem_commands (p := p) machine place htitle
  have hlines : lines = linesOf (p.commands machine place title) := by
    change (Sink.tape _).lines.map Prod.fst = _
    rw [htape, List.map_map]
    exact List.map_id _
  refine ⟨hlines ▸ htape, ?_, ?_, ?_, ?_, ?_, ?_, ?_⟩
  · rw [hlines, GCode.filter_linesOf hlegible, filter_commands machine place hclean]
  · intro before hole after hsplit
    rw [hlines]
    exact Clean.exists_hole_lines machine place htitle hclean hsplit
  · intro before line after hsplit htravel
    rw [hlines] at hsplit
    obtain ⟨front, c, rest, hfront, htravels, rfl⟩ :=
      GCode.exists_travels_of_linesOf hlegible hsplit htravel
    have hbefore : ∀ c ∈ front, c.Legible := fun c hc =>
      hlegible c (by rw [hfront]; exact List.mem_append_left _ hc)
    rw [GCode.readAll_linesOf hbefore]
    exact (keepsClear_commands machine place title).travels front c rest hfront htravels
  · rw [hlines, commands, GCode.linesOf_append, List.getLast?_append]
    simp [GCode.trailer, linesOf, Command.lines_of_ne_comment, Command.line, Command.text]
  · rw [hlines, GCode.readAll_linesOf hlegible, commands, List.foldl_append]
    rfl
  · exact hcount.trans (length_commands machine place hclean title)
  · rw [show written.lines = _ from hcount, hlines, length_linesOf_commands machine place htitle hclean]

/-- A tool is changed, drills, is put away, and is taken again for another hole. -/
theorem Program.drilling_machines_steps_reload :
    let tools : ToolTable Float := ⟨[(1, ⟨'C', 0.8⟩)]⟩
    let p : Program Float := ⟨.inches, tools,
      [.change 1, .drill ⟨1.0, 2.0⟩, .unload, .change 1, .drill ⟨-3.0, 0.5⟩]⟩
    let machine : Machine Float := .default
    let written := (Sink.start machine id none).drilling p "job"
    '\n' ∉ "job".toList ∧ written.1 = .ok () ∧
      (written.2.tape.lines.map Prod.fst).filter isPauseOrPlunge =
        p.steps.filterMap (Step.pauseOrPlunge? machine) ∧
      written.2.lines = 30 := by
  intro tools p machine written
  have htitle : '\n' ∉ "job".toList := by decide
  have hok : written.1 = .ok () := drilling_ending p machine id "job"
  obtain ⟨-, hfilter, -, -, -, -, hlines, -⟩ :=
    Program.drilling_machines_steps machine id none p "job" htitle hok
  exact ⟨htitle, hok, hfilter, hlines⟩

/-- A line feed as the shape of a tool makes two lines of its comment, which count as one. -/
theorem Program.drilling_lines_brokenComment :
    let p : Program Float := ⟨.millimeters, ⟨[(1, ⟨'\n', 0.8⟩)]⟩, [.change 1]⟩
    let written := (Sink.start .default id none).drilling p "job"
    '\n' ∉ "job".toList ∧ written.1 = .ok () ∧ written.2.lines = 11 ∧
      written.2.tape.lines.length = 12 := by
  intro p written
  have htitle : '\n' ∉ "job".toList := by decide
  have hok : written.1 = .ok () := drilling_ending p .default id "job"
  obtain ⟨hclean, htape, hcount⟩ := drilling_written .default id hok
  have hlength := length_commands .default id hclean "job"
  refine ⟨htitle, hok, hcount.trans hlength, ?_⟩
  change written.2.tape.lines = _ at htape
  rw [htape, List.length_map, length_linesOf_commands .default id htitle hclean, hlength]
  rfl

end BoardMill.Drill
