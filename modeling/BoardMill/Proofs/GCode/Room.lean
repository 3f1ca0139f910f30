import BoardMill.Proofs.Drill.Machining
import BoardMill.Proofs.GCode.Safety

/-! # Programs on a full tape

A tape that runs full has the first bytes of what one with room for everything has. The command
that does not fit is the last one that is counted, so the count is one more than that of the
commands that are there whole, and than that of the complete lines if no command breaks its line.
-/

namespace BoardMill

/-! ## Counting lines -/

namespace Text

variable {β : Type} [BEq β] [LawfulBEq β] {mark : β}

theorem count_marked (pieces : List (List β)) :
    (marked mark pieces).count mark = pieces.length + pieces.flatten.count mark := by
  induction pieces with
  | nil => rfl
  | cons piece pieces ih =>
      rw [marked_cons, List.count_append, List.count_cons_self, ih, List.flatten_cons,
        List.count_append, List.length_cons]
      omega

theorem length_splitOn (text : List β) : (text.splitOn mark).length = text.count mark + 1 := by
  induction text with
  | nil => rfl
  | cons c text ih =>
      rw [List.splitOn_eq_splitOnP] at ih ⊢
      rw [List.splitOnP_cons_eq_if_modifyHead]
      by_cases hc : c = mark
      · subst hc
        rw [if_pos (beq_self_eq_true c), List.length_cons, ih, List.count_cons_self]
      · rw [if_neg (by simpa using hc), List.length_modifyHead, ih, List.count_cons_of_ne hc]

/-- A text has a complete piece for every mark. -/
theorem countP_terminated (text : List β) :
    (terminated mark text).countP Prod.snd = text.count mark := by
  have hlength : (text.splitOn mark).length = text.count mark + 1 := length_splitOn text
  obtain ⟨pieces, rest, hpieces, hread⟩ := exists_terminated mark text
  have hcomplete : (pieces.map (·, true)).countP Prod.snd = pieces.length := by
    rw [List.countP_map]
    exact List.countP_eq_length.mpr fun _ _ => rfl
  have hrest : (unfinished rest).countP Prod.snd = 0 :=
    List.countP_eq_zero.mpr fun _ => ne_true_of_mem_unfinished
  rw [hpieces, List.length_append] at hlength
  rw [hread, List.countP_append, hcomplete, hrest]
  exact Nat.succ.inj hlength

end Text

namespace Utf8

theorem decode_encode_append_take (first second : List Char) (n : Nat) :
    (decode (encode first ++ (encode second).take n)).1 =
      first ++ (decode ((encode second).take n)).1 := by
  obtain ⟨k, rest, htake, hrest⟩ := exists_take_encode second n
  have hboth : encode first ++ (encode (second.take k) ++ rest) =
      encode (first ++ second.take k) ++ rest := by
    simp [encode]
  rw [htake, hboth, decode, decode, decodeOnto_encode [] _ hrest, decodeOnto_encode [] _ hrest]
  rfl

end Utf8

namespace GCode

namespace Tape

theorem blank_write_none (bytes : List UInt8) :
    (blank none).write bytes = (.ok (), ⟨bytes.toArray, none⟩) := by
  simp [write, blank]

theorem blank_write_some (n : Nat) (bytes : List UInt8) :
    (blank (some n)).write bytes =
      (if bytes.length ≤ n then .ok () else .error fullFault,
        ⟨(bytes.take n).toArray, some (n - bytes.length)⟩) := by
  have hbytes : (#[] : Array UInt8) ++ bytes.take n = (bytes.take n).toArray := by simp
  simp only [write, blank, hbytes]
  split <;> rfl

end Tape

variable {α : Type} [Numeral α]

namespace Sink

theorem programBytes_cons (c : Command α) (rest : List (Command α)) :
    programBytes (c :: rest) = lineBytes c ++ programBytes rest :=
  List.flatMap_cons

theorem programBytes_singleton (c : Command α) : programBytes [c] = lineBytes c :=
  List.flatMap_singleton _ _

/-! ## Where writing stops -/

/-- Writing stops at the command that does not fit behind those before it, and it is counted. -/
theorem emit_stops {s : Sink α} {commands : List (Command α)} {fault : Fault}
    (h : (s.emit commands).1 = .error fault) :
    ∃ before next after, commands = before ++ next :: after ∧
      (s.tape.write (programBytes before)).1 = .ok () ∧
      (s.tape.write (programBytes (before ++ [next]))).1 = .error fault ∧
      (s.emit commands).2.lines = s.lines + before.length + 1 := by
  induction commands generalizing s with
  | nil => cases h
  | cons c rest ih =>
      have htape := write_tape s c
      have hlines := write_lines s c
      rw [emit] at h ⊢
      generalize s.write c = written at htape hlines h ⊢
      obtain ⟨result, later⟩ := written
      dsimp only at htape hlines
      cases result with
      | error own =>
          cases h
          refine ⟨[], c, rest, rfl, congrArg Prod.fst (Tape.write_nil _), ?_, hlines⟩
          rw [List.nil_append, programBytes_singleton, ← htape]
      | ok _ =>
          obtain ⟨before, next, after, rfl, hbefore, hnext, hcount⟩ := ih h
          refine ⟨c :: before, next, after, rfl, ?_, ?_, ?_⟩
          · rw [programBytes_cons, Tape.write_append, ← htape]
            exact hbefore
          · rw [List.cons_append, programBytes_cons, Tape.write_append, ← htape]
            exact hnext
          · rw [hcount, hlines, List.length_cons]
            omega

theorem emit_append (s : Sink α) (first second : List (Command α)) :
    s.emit (first ++ second) =
      match s.emit first with
      | (.ok _, s) => s.emit second
      | (.error fault, s) => (.error fault, s) := by
  induction first generalizing s with
  | nil => rfl
  | cons c rest ih =>
      rw [List.cons_append, emit, emit]
      rcases s.write c with ⟨result, later⟩
      cases result with
      | ok _ => exact ih later
      | error fault => rfl

/-- How many commands are counted is up to the tape alone. -/
theorem emit_lines_congr {first second : Sink α} (htape : first.tape = second.tape)
    (hlines : first.lines = second.lines) (commands : List (Command α)) :
    (first.emit commands).2.lines = (second.emit commands).2.lines := by
  induction commands generalizing first second with
  | nil => exact hlines
  | cons c rest ih =>
      unfold emit write
      rw [htape]
      rcases second.tape.write (lineBytes c) with ⟨result, tape⟩
      cases result with
      | ok _ => exact ih rfl (congrArg (· + 1) hlines)
      | error fault => exact congrArg (· + 1) hlines

/-- Of a complete run as many commands are counted as of its program. -/
theorem complete_lines_eq (s : Sink α) (run : Run α) :
    (s.complete run).2.lines = (s.emit (run.program s.machine)).2.lines := by
  have hmachine := emit_machine s run.commands
  unfold complete play Run.program
  cases run.ending with
  | error _ => rcases s.emit run.commands with ⟨_ | _, later⟩ <;> rfl
  | ok _ =>
      rw [emit_append]
      generalize s.emit run.commands = emitted at hmachine ⊢
      obtain ⟨result, later⟩ := emitted
      cases result with
      | error _ => rfl
      | ok _ =>
          dsimp only at hmachine ⊢
          rw [trailer, hmachine]
          refine emit_lines_congr ?_ ?_ _ <;> rfl

/-! ## A fresh tape with little room -/

/-- What becomes of a program on a tape with room for some bytes only, next to what becomes of it
on one with room for all: the tape has the first bytes, and is full if there are more. The last
command that is counted is then the one that did not fit. -/
structure CutShort (n : Nat) (program : List (Command α)) (whole cut : Except Fault Unit × Sink α) :
    Prop where
  text : whole.2.tape.text = Text.marked '\n' (program.map Command.line)
  bytes : cut.2.tape.bytes.toList = whole.2.tape.bytes.toList.take n
  result : cut.1 = if whole.2.tape.bytes.size ≤ n then whole.1 else .error Tape.fullFault
  counted : n < whole.2.tape.bytes.size → ∃ before next after rest,
    program = before ++ next :: after ∧
    cut.2.tape.text = Text.marked '\n' (before.map Command.line) ++ rest ∧
    rest <+: next.line ∧ cut.2.lines = before.length + 1

theorem CutShort.result_of_lt {n : Nat} {program : List (Command α)}
    {whole cut : Except Fault Unit × Sink α} (h : CutShort n program whole cut)
    (hfull : n < whole.2.tape.bytes.size) : cut.1 = .error Tape.fullFault :=
  h.result.trans (if_neg (Nat.not_le.mpr hfull))

variable (machine : Machine α) (place : Point α → Point α) (n : Nat) (run : Run α)

theorem toList_complete_unlimited :
    ((start machine place none).complete run).2.tape.bytes.toList =
      programBytes (run.program machine) := by
  rw [(start_complete_tape machine place none run).1, Tape.blank_write_none]

/-- Behind the commands that are there whole, a full tape has the beginning of the next one, which
is the last that was counted. -/
theorem complete_full (hfull : n < ((start machine place none).complete run).2.tape.bytes.size) :
    ∃ before next after rest, run.program machine = before ++ next :: after ∧
      ((start machine place (some n)).complete run).2.tape.text =
        Text.marked '\n' (before.map Command.line) ++ rest ∧
      rest <+: next.line ∧
      ((start machine place (some n)).complete run).2.lines = before.length + 1 := by
  rw [← Array.length_toList, toList_complete_unlimited] at hfull
  have hemit := emit_tape (start machine place (some n)) (run.program machine)
  have hstop : ((start machine place (some n)).emit (run.program machine)).1 =
      .error Tape.fullFault := by
    refine (congrArg Prod.fst hemit).trans ?_
    rw [start, Tape.blank_write_some]
    exact if_neg (Nat.not_le.mpr hfull)
  obtain ⟨before, next, after, hprogram, hbefore, hnext, hcount⟩ := emit_stops hstop
  rw [start, Tape.blank_write_some] at hbefore hnext
  have hfits : (programBytes before).length ≤ n := by
    by_contra hmore
    rw [if_neg hmore] at hbefore
    cases hbefore
  have hbroken : n - (programBytes before).length < (lineBytes next).length := by
    rw [programBytes_append, programBytes_singleton, List.length_append] at hnext
    by_contra hmore
    rw [if_pos (by omega)] at hnext
    cases hnext
  have hline : lineBytes next = Utf8.encode (next.line ++ ['\n']) := rfl
  have hstored : (programBytes (run.program machine)).take n = programBytes before ++
      (lineBytes next).take (n - (programBytes before).length) := by
    rw [hprogram, programBytes_append, List.take_append, List.take_of_length_le hfits,
      programBytes_cons, List.take_append_of_le_length (Nat.le_of_lt hbroken)]
  refine ⟨before, next, after, (Utf8.decode ((lineBytes next).take
    (n - (programBytes before).length))).1, hprogram, ?_, ?_, ?_⟩
  · rw [Tape.text, (start_complete_tape machine place (some n) run).1, Tape.blank_write_some]
    dsimp only
    rw [hstored, programBytes_eq_encode before, hline, Utf8.decode_encode_append_take]
  · -- The line feed was cut off, if nothing else.
    have hpart := Utf8.decode_take_encode_start (next.line ++ ['\n'])
      (n - (programBytes before).length)
    exact (List.prefix_concat_iff.mp hpart).resolve_left (Utf8.decode_take_encode_ne _ hbroken)
  · have hlines := complete_lines_eq (start machine place (some n)) run
    exact hlines.trans (hcount.trans (by rw [start, Nat.zero_add]))

theorem complete_cutShort :
    CutShort n (run.program machine) ((start machine place none).complete run)
      ((start machine place (some n)).complete run) := by
  have hwhole := toList_complete_unlimited machine place run
  have hall := (start_complete_tape machine place none run).2
  obtain ⟨htape, hresult⟩ := start_complete_tape machine place (some n) run
  rw [Tape.blank_write_none] at hall
  rw [Tape.blank_write_some] at htape hresult
  refine ⟨?_, by rw [htape, hwhole], ?_, complete_full machine place n run⟩
  · rw [Tape.text, hwhole, programBytes_eq_encode, Utf8.decode_encode]
  · rw [hresult, hall, ← Array.length_toList, hwhole]
    by_cases hfit : (programBytes (run.program machine)).length ≤ n
    · rw [if_pos hfit, if_pos hfit]
    · rw [if_neg hfit, if_neg hfit]

/-- If no command breaks its line, one more command was counted than there are complete lines. -/
theorem CutShort.lines_eq {n : Nat} {program : List (Command α)}
    {whole cut : Except Fault Unit × Sink α} (h : CutShort n program whole cut)
    (hfull : n < whole.2.tape.bytes.size) (hsingle : ∀ c ∈ program, '\n' ∉ c.line) :
    cut.2.lines = cut.2.tape.lines.countP Prod.snd + 1 := by
  obtain ⟨before, next, after, rest, rfl, htext, hrest, hcount⟩ := h.counted hfull
  have hbefore : '\n' ∉ (before.map Command.line).flatten := by
    simp only [List.mem_flatten, List.mem_map]
    rintro ⟨_, ⟨c, hc, rfl⟩, hmem⟩
    exact hsingle c (List.mem_append_left _ hc) hmem
  have hnext : '\n' ∉ rest := fun hmem =>
    hsingle next (List.mem_append_right _ List.mem_cons_self) (hrest.subset hmem)
  rw [hcount, Tape.lines, htext, Text.countP_terminated, List.count_append, Text.count_marked,
    List.count_eq_zero_of_not_mem hbefore, List.count_eq_zero_of_not_mem hnext, List.length_map]

end Sink

end GCode

/-! ## Lines of drill programs -/

namespace Drill.Program

open GCode (Command Run)

variable {α : Type} [Numeral α] [PlainNumeral α] {p : Program α} (machine : Machine α)
  (place : Point α → Point α)

omit [Numeral α] [PlainNumeral α] in
/-- The tool of a change that breaks no line has another shape than a line feed. -/
theorem shape_ne_of_breaksLine {number : Nat} {found : Tool α} (h : p.tool number = .ok found)
    (hshape : p.breaksLine (.change number) = false) : found.shape ≠ '\n' := by
  unfold tool at h
  change (p.tools.get? number).any (·.shape == '\n') = false at hshape
  split at h
  next htool =>
    cases h
    rw [htool] at hshape
    simpa using hshape
  next => cases h

theorem newline_not_mem_step {loaded next : Option (Tool α)} {s : Step α}
    {commands : List (Command α)} (hstep : p.step machine place loaded s = .ok (next, commands))
    (hshape : p.breaksLine s = false) : ∀ c ∈ commands, '\n' ∉ c.line := by
  intro c hc
  apply c.newline_not_mem_line
  rintro remark rfl
  cases s with
  | change number =>
      obtain ⟨found, htool, hcommands⟩ := Outcome.bind_eq_ok.mp hstep
      cases hcommands
      obtain rfl : remark = .tool number found.shape (p.units.toMm found.size) := by
        simpa [changeCommands] using hc
      refine Command.newline_not_mem_remark _ (fun _ h => by cases h) fun _ _ _ h => ?_
      cases h
      exact shape_ne_of_breaksLine htool hshape
  | drill hole =>
      cases loaded with
      | none => cases hstep
      | some found =>
          cases hstep
          simp [drillCommands] at hc
  | unload =>
      cases hstep
      simp [unloadCommands] at hc

theorem newline_not_mem_runFrom {steps : List (Step α)}
    (hshapes : ∀ s ∈ steps, p.breaksLine s = false) (loaded : Option (Tool α)) :
    ∀ c ∈ (p.runFrom machine place loaded steps).commands, '\n' ∉ c.line := by
  induction steps generalizing loaded with
  | nil => exact fun _ hc => absurd hc List.not_mem_nil
  | cons s rest ih =>
      obtain ⟨hshape, hrest⟩ := List.forall_mem_cons.mp hshapes
      rw [runFrom]
      split
      next => exact fun _ hc => absurd hc List.not_mem_nil
      next next commands hstep =>
        exact List.forall_mem_append.mpr
          ⟨newline_not_mem_step machine place hstep hshape, ih hrest next⟩

/-- All commands of a drill program are single lines if the title is, and no tool that is taken has
a line feed as its shape. -/
theorem newline_not_mem_program {title : String} (htitle : '\n' ∉ title.toList)
    (hshapes : ∀ s ∈ p.steps, p.breaksLine s = false) :
    ∀ c ∈ (p.body machine place title).program machine, '\n' ∉ c.line := by
  have hpreamble : ∀ c ∈ GCode.preamble machine title, '\n' ∉ c.line := by
    intro c hc
    apply c.newline_not_mem_line
    rintro remark rfl
    obtain rfl : remark = .title title := by simpa [GCode.preamble] using hc
    exact htitle
  have hbody : ∀ c ∈ (p.body machine place title).commands, '\n' ∉ c.line :=
    List.forall_mem_append.mpr ⟨hpreamble, newline_not_mem_runFrom machine place hshapes none⟩
  unfold Run.program
  split
  · refine List.forall_mem_append.mpr ⟨hbody, fun c hc => c.newline_not_mem_line ?_⟩
    rintro remark rfl
    simp [GCode.trailer] at hc
  · exact hbody

end Drill.Program

namespace GCode

open Gerber (Document)

/-- A full tape only cuts a program short, that of a document as well as that of a drill program.
The command that did not fit is the last one counted, so there is one complete line less, unless
the title or the shape of a tool breaks a line. -/
theorem Sink.full_tape_cuts_short (machine : Machine Float) (place : Point Float → Point Float)
    (title : String) (n : Nat) :
    (∀ d : Document Float,
      let whole := (Sink.start machine place none).document d title
      let cut := (Sink.start machine place (some n)).document d title
      CutShort n ((d.body machine place false title).program machine) whole cut ∧
      ('\n' ∉ title.toList → n < whole.2.tape.bytes.size →
        cut.2.lines = cut.2.tape.lines.countP Prod.snd + 1)) ∧
    ∀ p : Drill.Program Float,
      let whole := (Sink.start machine place none).drilling p title
      let cut := (Sink.start machine place (some n)).drilling p title
      CutShort n ((p.body machine place title).program machine) whole cut ∧
      ('\n' ∉ title.toList → (∀ s ∈ p.steps, p.breaksLine s = false) →
        n < whole.2.tape.bytes.size →
        cut.2.lines = cut.2.tape.lines.countP Prod.snd + 1) := by
  constructor
  · intro d whole cut
    have hcut : CutShort n ((d.body machine place false title).program machine) whole cut :=
      complete_cutShort machine place n (d.body machine place false title)
    exact ⟨hcut, fun htitle hfull =>
      hcut.lines_eq hfull (Document.newline_not_mem_program machine place htitle d)⟩
  · intro p whole cut
    have hcut : CutShort n ((p.body machine place title).program machine) whole cut :=
      complete_cutShort machine place n (p.body machine place title)
    exact ⟨hcut, fun htitle hshapes hfull =>
      hcut.lines_eq hfull (Drill.Program.newline_not_mem_program machine place htitle hshapes)⟩

/-- The drill program of one tool is cut off within its comment. -/
theorem Sink.full_tape_cuts_short_toolComment :
    let p : Drill.Program Float := ⟨.millimeters, ⟨[(1, ⟨'C', 0.8⟩)]⟩, [.change 1]⟩
    let whole := (Sink.start .default id none).drilling p "job"
    let cut := (Sink.start .default id (some 50)).drilling p "job"
    '\n' ∉ "job".toList ∧ (∀ s ∈ p.steps, p.breaksLine s = false) ∧
      50 < whole.2.tape.bytes.size ∧ cut.1 = .error Tape.fullFault ∧ cut.2.lines = 4 ∧
      cut.2.lines = cut.2.tape.lines.countP Prod.snd + 1 := by
  intro p
  have htitle : '\n' ∉ "job".toList := by decide
  have hshapes : ∀ s ∈ p.steps, p.breaksLine s = false := by decide
  have hfull : 50 < ((Sink.start .default id none).drilling p "job").2.tape.bytes.size := by
    decide +kernel
  have hlines : ((Sink.start .default id (some 50)).drilling p "job").2.lines = 4 := by
    decide +kernel
  obtain ⟨hcut, hcount⟩ := (Sink.full_tape_cuts_short .default id "job" 50).2 p
  exact ⟨htitle, hshapes, hfull, hcut.result_of_lt hfull, hlines, hcount htitle hshapes hfull⟩

/-- A line feed as the shape of a tool makes two lines of its comment. If the tape runs full in the
second of them, there are as many complete lines as were counted. -/
theorem Sink.full_tape_brokenComment :
    let p : Drill.Program Float := ⟨.millimeters, ⟨[(1, ⟨'\n', 0.8⟩)]⟩, [.change 1]⟩
    let whole := (Sink.start .default id none).drilling p "job"
    let cut := (Sink.start .default id (some 50)).drilling p "job"
    '\n' ∉ "job".toList ∧ 50 < whole.2.tape.bytes.size ∧
      cut.2.lines = 4 ∧ cut.2.tape.lines.countP Prod.snd = 4 := by
  intro p whole cut
  have hbytes : cut.2.tape.bytes.toList =
      Utf8.encode "; job\nG90 G40 G17 G21\nG00 Z1.0000\n; tool T1 \n 0.80".toList := by
    decide +kernel
  refine ⟨by decide, by decide +kernel, by decide +kernel, ?_⟩
  rw [Tape.lines, Text.countP_terminated, Tape.text, hbytes, Utf8.decode_encode]
  decide

end GCode

end BoardMill
