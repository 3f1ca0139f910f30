import BoardMill.GCode.Motion
import BoardMill.Proofs.GCode.Posture
import BoardMill.Proofs.GCode.Writing
import BoardMill.Proofs.Gerber.Ready

/-! # Safe motion of document programs

A document program keeps track of whether the tool is in the board. The invariant is that
a machine that reads the program stands accordingly: lowered with the spindle on if the
tool is in the board, raised with the spindle off if it is out. Every motion may be
carried out from there and keeps the invariant, and so does every run.
-/

namespace BoardMill.GCode

variable {α : Type} [Numeral α]

/-- How a machine stands between two motions. -/
def Posture.between (machine : Machine α) (engaged : Bool) : Posture :=
  if engaged then .lowered machine else .raised machine

/-- Commands that document programs consist of between their opening and their trailer. -/
def Command.IsStep : Command α → Prop
  | finish | comment (.title _) | comment (.tool ..) => False
  | _ => True

omit [Numeral α] in
theorem engagedAfter_append (engaged : Bool) (first second : List (Command α)) :
    engagedAfter engaged (first ++ second) = engagedAfter (engagedAfter engaged first) second :=
  List.foldl_append

variable (machine : Machine α) (place : Point α → Point α)

omit [Numeral α] in
theorem engagedAfter_engage (engaged : Bool) :
    engagedAfter engaged (engage machine engaged) = true := by
  cases engaged <;> rfl

omit [Numeral α] in
theorem engagedAfter_retract (engaged : Bool) :
    engagedAfter engaged (retract machine engaged) = false := by
  cases engaged <;> rfl

omit [Numeral α] in
theorem isStep_of_mem_engage (engaged : Bool) : ∀ c ∈ engage machine engaged, c.IsStep := by
  cases engaged <;> simp [engage, Command.IsStep]

omit [Numeral α] in
theorem isStep_of_mem_retract (engaged : Bool) : ∀ c ∈ retract machine engaged, c.IsStep := by
  cases engaged <;> simp [retract, Command.IsStep]

/-- The commands of a motion are steps, unless it is a note of a title or a tool. -/
theorem Motion.isStep_of_mem_commands (m : Motion α) (engaged : Bool)
    (hnote : ∀ remark, m = note remark → (Command.comment remark).IsStep) :
    ∀ c ∈ m.commands machine place engaged, c.IsStep := by
  have hengage := isStep_of_mem_engage machine
  have hretract := isStep_of_mem_retract machine
  cases m with
  | note remark => exact List.forall_mem_singleton.mpr (hnote remark rfl)
  | travel target => simpa [commands, Command.IsStep, or_imp, forall_and] using hretract engaged
  | stamp target =>
      simp only [commands, List.forall_mem_append]
      refine ⟨⟨⟨hretract engaged, ?_⟩, hengage false⟩, hretract true⟩
      simp [Command.IsStep]
  | cut target => simpa [commands, Command.IsStep, or_imp, forall_and] using hengage engaged
  | arc clockwise start target center =>
      simpa [commands, Command.IsStep, or_imp, forall_and] using hengage engaged

section Motions

variable [PlainNumeral α]

/-- Wherever the tool was, it is in the board with the spindle on after it was put in. -/
theorem leads_engage (engaged : Bool) :
    Leads machine (.between machine engaged) (engage machine engaged) (.lowered machine) := by
  cases engaged with
  | true => exact .nil
  | false => exact .of_stays (by simp [engage, Command.Stays])

/-- Wherever the tool was, it is out of the board with the spindle off after it was taken
out. -/
theorem leads_retract (engaged : Bool) :
    Leads machine (.between machine engaged) (retract machine engaged) (.raised machine) := by
  cases engaged with
  | true => exact .of_stays (by simp [retract, Command.Stays])
  | false => exact .nil

/-- Every motion may be carried out and keeps the invariant. -/
theorem Motion.leads (m : Motion α) (engaged : Bool) :
    Leads machine (.between machine engaged) (m.commands machine place engaged)
      (.between machine (engagedAfter engaged (m.commands machine place engaged))) := by
  cases m with
  | note remark => exact .of_stays (by simp [commands, Command.Stays])
  | travel target =>
      rw [commands, engagedAfter_append, engagedAfter_retract]
      exact (leads_retract machine engaged).append (.cons (allowed_rapid _) .nil)
  | stamp target =>
      -- The climb is repeated here, also if the tool was just taken out.
      have hclimb : Leads machine (.raised machine)
          [.rapidZ machine.safeZ, .rapid (place target)] (.raised machine) :=
        .cons (Command.Stays.allowed trivial) (.cons (allowed_rapid _) .nil)
      rw [commands, engagedAfter_append, engagedAfter_append, engagedAfter_append,
        engagedAfter_retract]
      exact (((leads_retract machine engaged).append hclimb).append
        (leads_engage machine false)).append (leads_retract machine true)
  | cut target =>
      rw [commands, engagedAfter_append, engagedAfter_engage]
      exact (leads_engage machine engaged).append (.cons (allowed_cut _ _) .nil)
  | arc clockwise start target center =>
      rw [commands, engagedAfter_append, engagedAfter_engage]
      exact (leads_engage machine engaged).append (.cons (allowed_arc _ _ _ _) .nil)

end Motions

end BoardMill.GCode

namespace BoardMill.Gerber

open GCode

variable {α : Type} [Numeral α] (machine : Machine α) (place : Point α → Point α)

namespace Block

omit [Numeral α] in
/-- Blocks ask neither for titles nor for tools. -/
theorem isStep_of_goal? [Scalar α] {b : Block α} {s : State α} {remark : Remark α}
    (h : b.goal? s = some (.note remark)) : (Command.comment remark).IsStep := by
  cases b with
  | select number =>
      obtain ⟨a, -, hremark⟩ := Option.map_eq_some_iff.mp h
      cases hremark
      trivial
  | interpolate mode target center =>
      rw [goal?, Option.some.injEq] at h
      rcases s.stroke_cases mode target center with ⟨-, hcut⟩ | ⟨arc, c, -, -, harc⟩
      · rw [hcut] at h
        cases h
      · rw [harc] at h
        cases h
  | regionStart => cases h; trivial
  | regionEnd => cases h; trivial
  | polarity p => cases h; trivial
  | _ => cases h

/-- The commands of a block may be carried out and keep the invariant. -/
theorem leads [PlainNumeral α] {engaged : Bool} {b : Block α} {line : Nat} {s : State α}
    {commands : List (Command α)} (h : b.commands machine place engaged line s = .ok commands) :
    Leads machine (.between machine engaged) commands
      (.between machine (engagedAfter engaged commands)) := by
  rcases commands_cases h with ⟨-, rfl⟩ | ⟨m, -, rfl⟩
  · exact .nil
  · exact m.leads machine place engaged

/-- The commands of a block are steps. -/
theorem isStep_of_mem_commands {engaged : Bool} {b : Block α} {line : Nat} {s : State α}
    {commands : List (Command α)} (h : b.commands machine place engaged line s = .ok commands) :
    ∀ c ∈ commands, c.IsStep := by
  rcases commands_cases h with ⟨-, rfl⟩ | ⟨m, hm, rfl⟩
  · exact fun _ hc => absurd hc List.not_mem_nil
  · apply m.isStep_of_mem_commands
    rintro remark rfl
    exact isStep_of_goal? hm

end Block

namespace Document

variable (lastLine : Nat)

omit [Numeral α] in
/-- What holds for the commands of all blocks holds for the commands of a run. -/
theorem forall_mem_runFrom [Scalar α] {P : Command α → Prop}
    (hblock : ∀ engaged (b : Block α) line s commands,
      b.commands machine place engaged line s = .ok commands → ∀ c ∈ commands, P c)
    (engaged : Bool) (s : State α) (blocks : List (Located (Block α))) :
    ∀ c ∈ (runFrom machine place lastLine engaged s blocks).commands, P c := by
  induction blocks generalizing engaged s with
  | nil => exact fun _ hc => absurd hc List.not_mem_nil
  | cons b rest ih =>
      unfold runFrom
      split
      next => exact fun _ hc => absurd hc List.not_mem_nil
      next commands hcommands =>
        have hcommands := hblock engaged b.value b.line s commands hcommands
        split
        next => exact hcommands
        next next hnext =>
          exact List.forall_mem_append.mpr ⟨hcommands, ih _ next⟩

omit [Numeral α] in
theorem body_commands [Scalar α] (engaged : Bool) (title : String) (d : Document α) :
    (d.body machine place engaged title).commands =
      [.comment (.title title), .setup, .rapidZ machine.safeZ,
        .comment (.toolWidth machine.toolWidth)] ++
        (runFrom machine place d.lastLine engaged (.start d.apertures) d.blocks).commands :=
  rfl

variable [PlainNumeral α]

/-- Every run may be carried out and keeps the invariant. -/
theorem runFrom_leads (engaged : Bool) (s : State α) (blocks : List (Located (Block α))) :
    ∃ later, Leads machine (.between machine engaged)
      (runFrom machine place lastLine engaged s blocks).commands (.between machine later) := by
  induction blocks generalizing engaged s with
  | nil => exact ⟨engaged, .nil⟩
  | cons b rest ih =>
      unfold runFrom
      split
      next => exact ⟨engaged, .nil⟩
      next commands hcommands =>
        have hleads := Block.leads machine place hcommands
        split
        -- The commands of a block that is then refused are written all the same.
        next => exact ⟨_, hleads⟩
        next next hnext =>
          obtain ⟨later, hrest⟩ := ih (engagedAfter engaged commands) next
          exact ⟨later, hleads.append hrest⟩

/-- The opening of a program raises the tool, and the run behind it keeps the invariant. -/
theorem body_leads (title : String) (d : Document α) :
    ∃ later, Leads machine .start (d.body machine place false title).commands
      (.between machine later) := by
  obtain ⟨later, hrun⟩ := runFrom_leads machine place d.lastLine false (.start d.apertures) d.blocks
  rw [body_commands]
  exact ⟨later, (Leads.of_stays (by simp [Command.Stays])).append hrun⟩

/-- The whole program may be carried out, and leaves the tool raised if it is complete. -/
theorem program_leads (title : String) (d : Document α) :
    ∃ last, Leads machine .start ((d.body machine place false title).program machine) last ∧
      ((d.body machine place false title).ending = .ok () → last = .raised machine) := by
  obtain ⟨later, hbody⟩ := body_leads machine place title d
  unfold Run.program
  split
  next hend =>
    -- The trailer raises the tool and stops the spindle, whether that is needed or not.
    have htrailer : Leads machine (.between machine later) (trailer machine) (.raised machine) := by
      cases later <;> exact .of_stays (by simp [trailer, Command.Stays])
    exact ⟨_, hbody.append htrailer, fun _ => rfl⟩
  next fault hend => exact ⟨_, hbody, fun h => by rw [hend] at h; cases h⟩

omit [PlainNumeral α] in
/-- The opening of a program and the steps of its blocks. -/
theorem mem_body_commands {title : String} {d : Document α} {c : Command α}
    (hc : c ∈ (d.body machine place false title).commands) :
    c = .comment (.title title) ∨ c.IsStep := by
  rw [body_commands] at hc
  rcases List.mem_append.mp hc with hopening | hrun
  · simp only [List.mem_cons, List.not_mem_nil, or_false] at hopening
    rcases hopening with rfl | rfl | rfl | rfl
    · exact .inl rfl
    · exact .inr trivial
    · exact .inr trivial
    · exact .inr trivial
  · exact .inr (forall_mem_runFrom machine place d.lastLine
      (fun _ _ _ _ _ h => Block.isStep_of_mem_commands machine place h) _ _ _ c hrun)

omit [PlainNumeral α] in
theorem finish_not_mem_body_commands (title : String) (d : Document α) :
    Command.finish ∉ (d.body machine place false title).commands := by
  intro hmem
  rcases mem_body_commands machine place hmem with h | h
  · cases h
  · exact h

omit [PlainNumeral α] in
/-- The program ends where it says so. -/
theorem finish_not_mem_dropLast (title : String) (d : Document α) :
    Command.finish ∉ ((d.body machine place false title).program machine).dropLast := by
  have hbody := finish_not_mem_body_commands machine place title d
  unfold Run.program
  split
  · simpa [trailer, List.dropLast_append_of_ne_nil] using hbody
  · exact fun hmem => hbody (List.dropLast_subset _ hmem)

omit [PlainNumeral α] in
/-- A program that has its end comes from a run that ended well. -/
theorem ending_of_finish_mem {title : String} {d : Document α}
    (h : Command.finish ∈ (d.body machine place false title).program machine) :
    (d.body machine place false title).ending = .ok () := by
  unfold Run.program at h
  split at h
  next hend => exact hend
  next => exact absurd h (finish_not_mem_body_commands machine place title d)

/-- All commands of a program are single lines if the title is. -/
theorem newline_not_mem_program {title : String} (htitle : '\n' ∉ title.toList) (d : Document α) :
    ∀ c ∈ (d.body machine place false title).program machine, '\n' ∉ c.line := by
  have hbody : ∀ c ∈ (d.body machine place false title).commands, '\n' ∉ c.line := by
    intro c hc
    apply c.newline_not_mem_line
    rintro remark rfl
    rcases mem_body_commands machine place hc with h | h
    · cases h
      exact htitle
    · apply Command.newline_not_mem_remark
      · rintro text rfl
        exact h.elim
      · rintro number shape size rfl
        exact h.elim
  unfold Run.program
  split
  · refine List.forall_mem_append.mpr ⟨hbody, fun c hc => c.newline_not_mem_line ?_⟩
    rintro remark rfl
    simp [trailer] at hc
  · exact hbody

end Document

end BoardMill.Gerber

namespace BoardMill.GCode

open Gerber (Document)

variable {α : Type} [Numeral α] [PlainNumeral α]

/-- The end of a program that was written whole stands at the end. -/
theorem ne_finish_of_whole {program : List (Command α)}
    (hfinish : Command.finish ∉ program.dropLast) :
    ∀ entry ∈ (program.map (·.line, true)).dropLast, entry.1 ≠ "M30".toList := by
  intro entry hentry heq
  rw [← List.map_dropLast] at hentry
  obtain ⟨c, hc, rfl⟩ := List.mem_map.mp hentry
  rw [Command.eq_finish_of_line heq] at hc
  exact hfinish hc

/-- The end of a program that was cut off is missing, but for a beginning of its line. -/
theorem ne_finish_of_cut_off {first others : List (Command α)} {next : Command α}
    (hfinish : Command.finish ∉ (first ++ next :: others).dropLast) :
    ∀ entry ∈ first.map (·.line, true), entry.1 ≠ "M30".toList := by
  intro entry hentry heq
  obtain ⟨c, hc, rfl⟩ := List.mem_map.mp hentry
  rw [Command.eq_finish_of_line heq] at hc
  apply hfinish
  rw [List.dropLast_append_of_ne_nil (List.cons_ne_nil _ _)]
  exact List.mem_append_left _ hc

/-- Whatever fits on the tape of a document program moves the tool safely, read as a machine
does: it travels with the spindle off behind a climb to the height of travel, and cuts with
the spindle on behind a plunge to the height of cutting. The end of the program stands only
at the end of what was written, and is complete only if all went well. In this case the
machine is left with the spindle off behind a climb. -/
theorem Sink.document_moves_safely (machine : Machine Float) (place : Point Float → Point Float)
    (room : Option Nat) (d : Document Float) (title : String) (htitle : '\n' ∉ title.toList) :
    let written := (Sink.start machine place room).document d title
    let lines := written.2.tape.lines
    (∀ before line complete after, lines = before ++ (line, complete) :: after →
      Allowed machine (Posture.start.readAll (before.map Prod.fst)) line) ∧
    (∀ entry ∈ lines.dropLast, entry.1 ≠ "M30".toList) ∧
    (("M30".toList, true) ∈ lines → written.1 = .ok ()) ∧
    (written.1 = .ok () → lines.getLast? = some ("M30".toList, true) ∧
      Posture.start.readAll (lines.map Prod.fst) = .raised machine) := by
  intro written lines
  let run := d.body machine place false title
  have hsingle : ∀ c ∈ run.program machine, '\n' ∉ c.line :=
    Document.newline_not_mem_program machine place htitle d
  obtain ⟨last, hleads, hraised⟩ := Document.program_leads machine place title d
  have hfinish : Command.finish ∉ (run.program machine).dropLast :=
    Document.finish_not_mem_dropLast machine place title d
  have hsplit (hsafe : SafeFrom machine .start (lines.map Prod.fst)) :
      ∀ before line complete after, lines = before ++ (line, complete) :: after →
        Allowed machine (Posture.start.readAll (before.map Prod.fst)) line := by
    intro before line complete after h
    exact hsafe.allowed (by rw [h, List.map_append, List.map_cons])
  rcases Sink.start_complete_lines machine place room run hsingle with
    ⟨hresult, hlines⟩ | ⟨hresult, first, next, others, rest, hprogram, hrest, hlines⟩
  -- The tape has room for the whole program.
  · change written.1 = run.ending at hresult
    change lines = _ at hlines
    have hread : lines.map Prod.fst = (run.program machine).map (·.line) := by
      rw [hlines, List.map_map]
      rfl
    refine ⟨hsplit (hread ▸ hleads.safe), hlines ▸ ne_finish_of_whole hfinish, ?_, ?_⟩
    · intro hmem
      rw [hlines] at hmem
      obtain ⟨c, hc, heq⟩ := List.mem_map.mp hmem
      rw [Command.eq_finish_of_line (Prod.mk.inj heq).1] at hc
      rw [hresult, Document.ending_of_finish_mem machine place hc]
    · intro hok
      rw [hresult] at hok
      refine ⟨?_, by rw [hread, hleads.reads, hraised hok]⟩
      rw [hlines, List.getLast?_map, run.getLast?_program machine hok]
      rfl
  -- The tape is full within a line, and that line is only begun.
  · change written.1 = .error Tape.fullFault at hresult
    change lines = _ at hlines
    rw [hprogram] at hfinish
    have hearlier := ne_finish_of_cut_off hfinish
    have hread : lines.map Prod.fst =
        first.map (·.line) ++ (Text.unfinished rest).map Prod.fst := by
      rw [hlines, List.map_append, List.map_map]
      rfl
    have hsafe := hleads.safe
    rw [hprogram] at hsafe
    refine ⟨hsplit (hread ▸ hsafe.cut_off hrest), ?_, ?_, ?_⟩
    · intro entry hentry
      apply hearlier
      rw [hlines] at hentry
      exact Text.mem_of_mem_dropLast_unfinished hentry
    · intro hmem
      rw [hlines] at hmem
      rcases List.mem_append.mp hmem with hmem | hmem
      · exact absurd rfl (hearlier _ hmem)
      · exact absurd rfl (Text.ne_true_of_mem_unfinished hmem)
    · intro hok
      rw [hresult] at hok
      cases hok

/-- The contour of a region is cut with the tool lowered, and its program ends once, with the tool
raised. -/
theorem Sink.document_moves_safely_contour :
    let contour : Document Float :=
      { blocks := [⟨1, .regionStart⟩, ⟨2, .move ⟨0.0, 0.0⟩⟩,
          ⟨3, .interpolate .linear ⟨1.0, 0.0⟩ none⟩, ⟨4, .regionEnd⟩]
        apertures := .empty }
    let machine : Machine Float := .default
    let written := (Sink.start machine id none).document contour "job"
    let lines := written.2.tape.lines
    let cutting := "G01 X1.0000 Y0.0000 F300".toList
    '\n' ∉ "job".toList ∧
      (∀ before line complete after, lines = before ++ (line, complete) :: after →
        Allowed machine (Posture.start.readAll (before.map Prod.fst)) line) ∧
      (∀ entry ∈ lines.dropLast, entry.1 ≠ "M30".toList) ∧
      (∃ before after, lines = before ++ (cutting, true) :: after ∧
        Posture.start.readAll (before.map Prod.fst) = .lowered machine) ∧
      ("M30".toList, true) ∈ lines ∧ written.1 = .ok () ∧
      lines.getLast? = some ("M30".toList, true) ∧
      Posture.start.readAll (lines.map Prod.fst) = .raised machine := by
  intro contour machine written lines cutting
  have htitle : '\n' ∉ "job".toList := by decide
  obtain ⟨hallowed, hfinish, hcomplete, hend⟩ :=
    Sink.document_moves_safely machine id none contour "job" htitle
  have hcut : (cutting, true) ∈ lines := by decide +kernel
  obtain ⟨before, after, hsplit⟩ := List.append_of_mem hcut
  have hlowered := (hallowed before cutting true after hsplit).cut (by decide)
  have hmem : ("M30".toList, true) ∈ lines := by decide +kernel
  have hok : written.1 = .ok () := hcomplete hmem
  exact ⟨htitle, hallowed, hfinish, ⟨before, after, hsplit, hlowered⟩, hmem, hok, hend hok⟩

end BoardMill.GCode
