import BoardMill.Proofs.GCode.Endless
import BoardMill.Proofs.GCode.Room

/-! # What the lines of a program say

Behind its title a program has only comments and instructions, each of one line. The title is
written as it is: if it has line feeds, what stands behind them are lines of their own, which a
machine reads as anything that they may say.
-/

namespace BoardMill.GCode

open Decimal (Marked isNumberMark)

/-! ## Lines -/

def IsComment (line : List Char) : Prop := [';', ' '] <+: line

instance : DecidablePred IsComment := fun line => inferInstanceAs (Decidable ([';', ' '] <+: line))

/-- What instructions look like: the words that they begin with, and the letters of the numbers
behind them. -/
def instructionForms : List (List (List Char) × List Char) :=
  [([['G', '9', '0'], ['G', '4', '0'], ['G', '1', '7'], ['G', '2', '1']], []),
    ([['G', '0', '0']], ['Z']), ([['G', '0', '0']], ['X', 'Y']),
    ([['G', '0', '1']], ['Z', 'F']), ([['G', '0', '1']], ['X', 'Y', 'F']),
    ([['G', '0', '2']], ['X', 'Y', 'I', 'J', 'F']), ([['G', '0', '3']], ['X', 'Y', 'I', 'J', 'F']),
    ([['M', '3']], ['S']), ([['M', '5']], []), ([['M', '0']], []), ([['M', '3', '0']], [])]

/-- A line of one of the forms, with numbers in their places. -/
def IsInstruction (line : List Char) : Prop :=
  ∃ form ∈ instructionForms, ∃ numbers : List (List Char), numbers.length = form.2.length ∧
    (∀ number ∈ numbers, Marked number) ∧
    line = [' '].intercalate (form.1 ++ List.zipWith List.cons form.2 numbers)

/-- What a line feed in a tool comment leaves for the next line. -/
def isSizeLine : List Char → Bool
  | ' ' :: size => size.all isNumberMark
  | _ => false

theorem intercalate_prefix_append {β : Type} (sep : List β) (first second : List (List β)) :
    sep.intercalate first <+: sep.intercalate (first ++ second) := by
  induction first with
  | nil => exact List.nil_prefix
  | cons word first ih =>
      cases first with
      | nil =>
          rw [List.intercalate_singleton]
          cases second with
          | nil =>
              exact ⟨[], by rw [List.append_nil, List.append_nil, List.intercalate_singleton]⟩
          | cons next second =>
              rw [List.singleton_append, List.intercalate_cons_cons, List.append_assoc]
              exact List.prefix_append _ _
      | cons next first =>
          rw [List.cons_append, List.cons_append, List.intercalate_cons_cons,
            List.intercalate_cons_cons]
          exact (List.prefix_append_right_inj _).mpr ih

/-- An instruction begins with the words of its form. -/
theorem IsInstruction.exists_prefix {line : List Char} (h : IsInstruction line) :
    ∃ form ∈ instructionForms, [' '].intercalate form.1 <+: line := by
  obtain ⟨form, hform, numbers, -, -, rfl⟩ := h
  exact ⟨form, hform, intercalate_prefix_append _ _ _⟩

theorem not_isSizeLine_of_head? {line : List Char} {c : Char} (h : line.head? = some c)
    (hc : c ≠ ' ') : isSizeLine line = false := by
  cases line with
  | nil => rfl
  | cons first rest =>
      cases h
      unfold isSizeLine
      split
      next heq => exact absurd (List.cons.inj heq).1 hc
      next => rfl

theorem IsComment.isSizeLine_eq_false {line : List Char} (h : IsComment line) :
    isSizeLine line = false := by
  obtain ⟨rest, rfl⟩ := h
  rfl

theorem IsInstruction.isSizeLine_eq_false {line : List Char} (h : IsInstruction line) :
    isSizeLine line = false := by
  obtain ⟨form, hform, rest, rfl⟩ := h.exists_prefix
  have hhead : ∀ form ∈ instructionForms, ([' '].intercalate form.1).head? = some 'G' ∨
      ([' '].intercalate form.1).head? = some 'M' := by
    decide
  rcases hhead form hform with hhead | hhead
  · exact not_isSizeLine_of_head? (by rw [List.head?_append, hhead, Option.some_or]) (by decide)
  · exact not_isSizeLine_of_head? (by rw [List.head?_append, hhead, Option.some_or]) (by decide)

/-! ## Lines of commands -/

section Commands

variable {α : Type} [Numeral α]

/-- A comment that its tool breaks into two lines. -/
def Command.breaks : Command α → Bool
  | comment (.tool _ shape _) => shape == '\n'
  | _ => false

variable [PlainNumeral α]

/-- A command that is not a comment is written as an instruction. -/
theorem Command.isInstruction_line (c : Command α) (hc : ∀ remark, c ≠ comment remark) :
    IsInstruction c.line := by
  let fixed (x : α) : List Char := (Numeral.fixed 4 x).toList
  let plain (x : α) : List Char := (Numeral.plain x).toList
  have hfixed (x : α) : Marked (fixed x) := PlainNumeral.marked_fixed 4 x
  have hplain (x : α) : Marked (plain x) := PlainNumeral.marked_plain x
  have hform (form : List (List Char) × List Char) (numbers : List (List Char))
      (hwords : c.words = form.1 ++ List.zipWith List.cons form.2 numbers)
      (hmem : form ∈ instructionForms) (hlength : numbers.length = form.2.length)
      (hmarked : ∀ number ∈ numbers, Marked number) : IsInstruction c.line :=
    ⟨form, hmem, numbers, hlength, hmarked, by rw [line_eq_words c hc, hwords]⟩
  cases c with
  | comment remark => exact absurd rfl (hc remark)
  | setup =>
      exact hform ([['G', '9', '0'], ['G', '4', '0'], ['G', '1', '7'], ['G', '2', '1']], []) []
        rfl (by decide) rfl (by simp)
  | rapidZ z =>
      exact hform ([['G', '0', '0']], ['Z']) [fixed z] rfl (by decide) rfl (by simp [hfixed])
  | rapid p =>
      exact hform ([['G', '0', '0']], ['X', 'Y']) [fixed p.x, fixed p.y] rfl (by decide) rfl
        (by simp [hfixed])
  | home =>
      have hzero : Marked ['0'] := .cons rfl .nil
      exact hform ([['G', '0', '0']], ['X', 'Y']) [['0'], ['0']] rfl (by decide) rfl
        (by simp [hzero])
  | spindleOn speed =>
      exact hform ([['M', '3']], ['S']) [Decimal.toDigits speed] rfl (by decide) rfl
        (by simp [Decimal.marked_toDigits])
  | spindleOff => exact hform ([['M', '5']], []) [] rfl (by decide) rfl (by simp)
  | plunge z feed =>
      exact hform ([['G', '0', '1']], ['Z', 'F']) [fixed z, plain feed] rfl (by decide) rfl
        (by simp [hfixed, hplain])
  | cut p feed =>
      exact hform ([['G', '0', '1']], ['X', 'Y', 'F']) [fixed p.x, fixed p.y, plain feed] rfl
        (by decide) rfl (by simp [hfixed, hplain])
  | arc clockwise p offset feed =>
      exact hform ([['G', '0', if clockwise then '2' else '3']], ['X', 'Y', 'I', 'J', 'F'])
        [fixed p.x, fixed p.y, fixed offset.x, fixed offset.y, plain feed] rfl
        (by cases clockwise <;> decide) rfl (by simp [hfixed, hplain])
  | pause => exact hform ([['M', '0']], []) [] rfl (by decide) rfl (by simp)
  | finish => exact hform ([['M', '3', '0']], []) [] rfl (by decide) rfl (by simp)

/-- The lines of a command are comments and instructions. One that is broken has a line more,
which has a size. -/
structure Command.Told (c : Command α) : Prop where
  lines : ∀ line ∈ c.lines, IsComment line ∨ IsInstruction line ∨ isSizeLine line = true
  sizes : c.lines.countP isSizeLine = if c.breaks then 1 else 0
  length : c.lines.length = 1 + c.lines.countP isSizeLine

namespace Command

omit [PlainNumeral α] in
theorem isComment_line (remark : Remark α) : IsComment (comment remark).line := by
  rw [line_comment]
  exact List.prefix_append [';', ' '] _

omit [PlainNumeral α] in
theorem told_of_singleton {c : Command α} (hlines : c.lines = [c.line]) (hbreaks : c.breaks = false)
    (hline : IsComment c.line ∨ IsInstruction c.line) : c.Told := by
  have hsize : isSizeLine c.line = false := by
    rcases hline with hcomment | hinstruction
    · exact hcomment.isSizeLine_eq_false
    · exact hinstruction.isSizeLine_eq_false
  have hcount : c.lines.countP isSizeLine = 0 := by
    rw [hlines, List.countP_singleton, hsize, if_neg Bool.false_ne_true]
  refine ⟨?_, by rw [hcount, hbreaks, if_neg Bool.false_ne_true], by rw [hcount, hlines]; rfl⟩
  rw [hlines, List.forall_mem_singleton]
  exact hline.imp_right .inl

theorem told_remark {remark : Remark α} (htitle : ∀ title, remark ≠ .title title)
    (htool : ∀ number shape size, remark ≠ .tool number shape size) : (comment remark).Told := by
  refine told_of_singleton (lines_eq_singleton (newline_not_mem_line _ ?_)) ?_
    (.inl (isComment_line remark))
  · rintro _ hremark
    cases hremark
    exact newline_not_mem_remark remark (fun title h => absurd h (htitle title))
      fun number shape size h => absurd h (htool number shape size)
  · cases remark with
    | tool number shape size => exact absurd rfl (htool number shape size)
    | _ => rfl

theorem told_tool (number : Nat) (shape : Char) (size : α) :
    (comment (.tool number shape size)).Told := by
  by_cases hshape : shape = '\n'
  · subst hshape
    let first : List Char := s!"; tool T{number} ".toList
    let second : List Char := ' ' :: (Numeral.fixed 4 size).toList
    have hlines : (comment (.tool number '\n' size)).lines = [first, second] := lines_tool _ _ _
    have hfirst : IsComment first := by simp [first, IsComment, toString]
    have hsecond : isSizeLine second = true :=
      List.all_eq_true.mpr (PlainNumeral.marked_fixed 4 size)
    have hcount : (comment (.tool number '\n' size)).lines.countP isSizeLine = 1 := by
      rw [hlines, List.countP_cons_of_neg (by simp [hfirst.isSizeLine_eq_false]),
        List.countP_singleton, hsecond, if_pos rfl]
    refine ⟨?_, hcount, by rw [hcount, hlines]; rfl⟩
    rw [hlines, List.forall_mem_cons, List.forall_mem_singleton]
    exact ⟨.inl hfirst, .inr (.inr hsecond)⟩
  · refine told_of_singleton ?_ ?_ (.inl (isComment_line _))
    · rw [lines_tool, if_neg hshape]
    · simpa [breaks] using hshape

/-- Only a title can be broken into lines that say anything. -/
theorem told (c : Command α) (hc : ∀ title, c ≠ comment (.title title)) : c.Told := by
  by_cases hremark : ∀ remark, c ≠ comment remark
  · refine told_of_singleton (lines_of_ne_comment hremark) ?_ (.inr (c.isInstruction_line hremark))
    cases c with
    | comment remark => exact absurd rfl (hremark remark)
    | _ => rfl
  · push Not at hremark
    obtain ⟨remark, rfl⟩ := hremark
    cases remark with
    | title title => exact absurd rfl (hc title)
    | tool number shape size => exact told_tool number shape size
    | _ => exact told_remark (fun _ h => by cases h) fun _ _ _ h => by cases h

end Command

variable {commands : List (Command α)}

omit [PlainNumeral α] in
theorem told_linesOf (h : ∀ c ∈ commands, c.Told) :
    (∀ line ∈ linesOf commands, IsComment line ∨ IsInstruction line ∨ isSizeLine line = true) ∧
      (linesOf commands).countP isSizeLine = commands.countP Command.breaks ∧
      (linesOf commands).length = commands.length + (linesOf commands).countP isSizeLine := by
  induction commands with
  | nil => exact ⟨fun _ hline => absurd hline List.not_mem_nil, rfl, rfl⟩
  | cons c rest ih =>
      obtain ⟨hc, hrest⟩ := List.forall_mem_cons.mp h
      obtain ⟨hlines, hsizes, hlength⟩ := ih hrest
      have hsplit : linesOf (c :: rest) = c.lines ++ linesOf rest := rfl
      rw [hsplit]
      refine ⟨List.forall_mem_append.mpr ⟨hc.lines, hlines⟩, ?_, ?_⟩
      · rw [List.countP_append, hc.sizes, hsizes, List.countP_cons, Nat.add_comm]
      · rw [List.length_append, List.countP_append, hc.length, hlength, List.length_cons]
        omega

end Commands

/-! ## Programs -/

section Programs

variable {α : Type} [Numeral α]

/-- The lines of a preamble: those of its title, and two more. -/
def preambleLines (machine : Machine α) (title : String) : List (List Char) :=
  (';' :: ' ' :: title.toList).splitOn '\n' ++
    ["G90 G40 G17 G21".toList, "G00 Z".toList ++ (Numeral.fixed 4 machine.safeZ).toList]

theorem length_preambleLines (machine : Machine α) (title : String) :
    (preambleLines machine title).length = 3 + title.toList.count '\n' := by
  rw [preambleLines, List.length_append, Text.length_splitOn,
    List.count_cons_of_ne (by decide), List.count_cons_of_ne (by decide), List.length_cons,
    List.length_singleton]
  omega

omit [Numeral α] in
theorem Run.program_behind (machine : Machine α) (first : List (Command α)) (next : Run α) :
    ((Run.ofCommands first).andThen next).program machine = first ++ next.program machine := by
  unfold program andThen ofCommands
  cases next.ending with
  | error fault => rfl
  | ok _ => exact List.append_assoc _ _ _

variable [PlainNumeral α] {machine : Machine α}

theorem linesOf_preamble (title : String) : linesOf (preamble machine title) = preambleLines machine title := by
  have htitle : (Command.comment (.title title) : Command α).lines =
      (';' :: ' ' :: title.toList).splitOn '\n' := by
    rw [Command.lines, Command.line_comment]
    rfl
  have hsetup : (Command.setup : Command α).lines = ["G90 G40 G17 G21".toList] :=
    Command.lines_of_ne_comment fun _ h => by cases h
  have hclimb : (Command.rapidZ machine.safeZ).lines =
      ["G00 Z".toList ++ (Numeral.fixed 4 machine.safeZ).toList] := by
    rw [Command.lines_of_ne_comment fun _ h => by cases h]
    simp [Command.line, Command.text, toString]
  rw [preamble, linesOf, List.flatMap_cons, List.flatMap_cons, List.flatMap_cons, List.flatMap_nil,
    htitle, hsetup, hclimb]
  rfl

omit [PlainNumeral α] in
/-- What is written with room for all. -/
theorem Sink.complete_written (machine : Machine α) (place : Point α → Point α) (run : Run α) :
    ((start machine place none).complete run).2.tape.lines =
        (linesOf (run.program machine)).map (·, true) ∧
      ((start machine place none).complete run).2.lines = (run.program machine).length := by
  rw [complete_endless rfl]
  refine ⟨?_, Nat.zero_add _⟩
  have hbytes : ((start machine place none).behind (run.program machine)).tape.bytes.toList =
      programBytes (run.program machine) := by
    simp [behind, start, Tape.blank]
  rw [Tape.lines, Tape.text]
  change (Text.terminated '\n' (Utf8.decode
    ((start machine place none).behind (run.program machine)).tape.bytes.toList).1) = _
  rw [hbytes, programBytes_eq_encode, Utf8.decode_encode, Text.terminated_marked_splitOn,
    List.flatMap_map]
  rfl

/-- The lines behind the preamble of a program, if none of its commands has a title. -/
theorem Sink.complete_told (place : Point α → Point α) (title : String)
    (opening : List (Command α)) (next : Run α)
    (h : ∀ c ∈ opening ++ next.program machine, c.Told) :
    let run := (Run.ofCommands (preamble machine title ++ opening)).andThen next
    let written := ((start machine place none).complete run).2
    let own := linesOf (opening ++ next.program machine)
    written.tape.lines = (preambleLines machine title ++ own).map (·, true) ∧
      (∀ line ∈ own, IsComment line ∨ IsInstruction line ∨ isSizeLine line = true) ∧
      own.countP isSizeLine = (opening ++ next.program machine).countP Command.breaks ∧
      written.lines + own.countP isSizeLine = 3 + own.length := by
  intro run written own
  obtain ⟨hlines, hcount⟩ := Sink.complete_written machine place run
  obtain ⟨htold, hsizes, hlength⟩ := told_linesOf h
  rw [Run.program_behind, List.append_assoc] at hlines hcount
  refine ⟨?_, htold, hsizes, ?_⟩
  · rw [← linesOf_preamble, ← linesOf_append]
    exact hlines
  · rw [List.length_append] at hcount
    have hopening : (preamble machine title).length = 3 := rfl
    change written.lines = _ at hcount
    change own.length = _ + own.countP isSizeLine at hlength
    omega

omit [Numeral α] [PlainNumeral α] in
theorem Run.mem_program {run : Run α} {c : Command α} (h : c ∈ run.program machine) :
    c ∈ run.commands ∨ c ∈ trailer machine := by
  unfold program at h
  split at h
  · exact List.mem_append.mp h
  · exact .inl h

omit [Numeral α] [PlainNumeral α] in
theorem Command.IsStep.untitled {c : Command α} (h : c.IsStep) :
    (∀ title, c ≠ comment (.title title)) ∧ c.breaks = false := by
  constructor
  · rintro title rfl
    exact h
  · cases c with
    | comment remark =>
        cases remark with
        | tool number shape size => exact h.elim
        | _ => rfl
    | _ => rfl

omit [Numeral α] [PlainNumeral α] in
theorem untitled_trailer :
    ∀ c ∈ trailer machine, (∀ title, c ≠ .comment (.title title)) ∧ c.breaks = false := by
  simp [trailer, Command.breaks]

end Programs

end BoardMill.GCode

namespace BoardMill.Gerber.Document

open GCode

variable {α : Type} [Numeral α] {machine : Machine α} {place : Point α → Point α}

/-- Behind its preamble a document has no titles and no tools. -/
theorem untitled_of_mem_program {d : Document α} {c : Command α}
    (h : c ∈ [.comment (.toolWidth machine.toolWidth)] ++
      (runFrom machine place d.lastLine false (.start d.apertures) d.blocks).program machine) :
    (∀ title, c ≠ .comment (.title title)) ∧ c.breaks = false := by
  rcases List.mem_append.mp h with hopening | hrun
  · rw [List.mem_singleton.mp hopening]
    exact Command.IsStep.untitled trivial
  · rcases Run.mem_program hrun with hc | hc
    · refine Command.IsStep.untitled ?_
      exact forall_mem_runFrom machine place d.lastLine
        (fun _ _ _ _ _ h => Block.isStep_of_mem_commands machine place h) _ _ _ c hc
    · exact untitled_trailer c hc

end BoardMill.Gerber.Document

namespace BoardMill.Drill.Program

open GCode

variable {α : Type} [Scalar α] {p : Program α} {machine : Machine α} {place : Point α → Point α}

/-- The commands of a step have no title, and break at most one line, if its tool does. -/
theorem breaks_step {loaded next : Option (Tool α)} {s : Step α} {commands : List (Command α)}
    (h : p.step machine place loaded s = .ok (next, commands)) :
    (∀ c ∈ commands, ∀ title, c ≠ .comment (.title title)) ∧
      commands.countP Command.breaks ≤ if p.breaksLine s then 1 else 0 := by
  cases s with
  | change number =>
      obtain ⟨tool, htool, hcommands⟩ := Outcome.bind_eq_ok.mp h
      cases hcommands
      refine ⟨by simp [changeCommands], ?_⟩
      have hcount : (changeCommands machine p.units number tool).countP Command.breaks =
          if tool.shape = '\n' then 1 else 0 := by
        simp [changeCommands, Command.breaks, List.countP_cons]
      rw [hcount]
      cases hbreaks : p.breaksLine (.change number) with
      | true => split <;> simp
      | false => rw [if_neg (shape_ne_of_breaksLine htool hbreaks)]; exact Nat.zero_le _
  | drill hole =>
      cases loaded with
      | none => cases h
      | some tool =>
          cases h
          exact ⟨by simp [drillCommands], Nat.zero_le _⟩
  | unload =>
      cases h
      exact ⟨by simp [unloadCommands], Nat.zero_le _⟩

theorem breaks_runFrom (p : Program α) (machine : Machine α) (place : Point α → Point α)
    (loaded : Option (Tool α)) (steps : List (Step α)) :
    (∀ c ∈ (p.runFrom machine place loaded steps).commands, ∀ title, c ≠ .comment (.title title)) ∧
      (p.runFrom machine place loaded steps).commands.countP Command.breaks ≤
        steps.countP p.breaksLine := by
  induction steps generalizing loaded with
  | nil => exact ⟨fun _ hc => absurd hc List.not_mem_nil, Nat.le_refl _⟩
  | cons s rest ih =>
      unfold runFrom
      split
      next => exact ⟨fun _ hc => absurd hc List.not_mem_nil, Nat.zero_le _⟩
      next next commands hstep =>
        obtain ⟨htitles, hbreaks⟩ := breaks_step hstep
        obtain ⟨hothers, hrest⟩ := ih next
        refine ⟨List.forall_mem_append.mpr ⟨htitles, hothers⟩, ?_⟩
        rw [List.countP_cons, Nat.add_comm]
        exact List.countP_append.le.trans (Nat.add_le_add hbreaks hrest)

theorem breaks_program (p : Program α) (machine : Machine α) (place : Point α → Point α) :
    let program := (p.runFrom machine place none p.steps).program machine
    (∀ c ∈ program, ∀ title, c ≠ .comment (.title title)) ∧
      program.countP Command.breaks ≤ p.steps.countP p.breaksLine := by
  intro program
  obtain ⟨htitles, hbreaks⟩ :=
    breaks_runFrom p machine place none p.steps
  refine ⟨fun c hc => ?_, ?_⟩
  · rcases Run.mem_program hc with hc | hc
    · exact htitles c hc
    · exact (untitled_trailer c hc).1
  · unfold program Run.program
    have htrailer : (GCode.trailer machine).countP Command.breaks = 0 :=
      List.countP_eq_zero.mpr fun c hc => by simp [(untitled_trailer c hc).2]
    split
    · rw [List.countP_append, htrailer]
      exact hbreaks
    · exact hbreaks

end BoardMill.Drill.Program

namespace BoardMill.GCode

open Gerber (Document)

/-- Whatever the title of a program is, only its own lines say what it says. Behind the lines of its
preamble a document has comments and instructions only. The same goes for a drill program, but
for the sizes of tools whose shape is a line feed. A line is counted for each that is written,
except for what line feeds in the title and in these shapes add. -/
theorem Sink.lines_behind_title (machine : Machine Float) (place : Point Float → Point Float)
    (title : String) :
    let fresh := Sink.start machine place none
    let preamble := preambleLines machine title
    preamble.length = 3 + title.toList.count '\n' ∧
    (∀ d : Document Float, ∃ own,
      let written := (fresh.document d title).2
      written.tape.lines = (preamble ++ own).map (·, true) ∧
        (∀ line ∈ own, IsComment line ∨ IsInstruction line) ∧
        written.lines = 3 + own.length) ∧
    ∀ p : Drill.Program Float, ∃ own,
      let written := (fresh.drilling p title).2
      written.tape.lines = (preamble ++ own).map (·, true) ∧
        (∀ line ∈ own, IsComment line ∨ IsInstruction line ∨ isSizeLine line = true) ∧
        own.countP isSizeLine ≤ p.steps.countP p.breaksLine ∧
        written.lines + own.countP isSizeLine = 3 + own.length := by
  intro fresh preamble
  refine ⟨length_preambleLines machine title, fun d => ?_, fun p => ?_⟩
  · let next := Document.runFrom machine place d.lastLine false (.start d.apertures) d.blocks
    let opening : List (Command Float) := [.comment (.toolWidth machine.toolWidth)]
    have huntitled : ∀ c ∈ opening ++ next.program machine,
        (∀ title, c ≠ .comment (.title title)) ∧ c.breaks = false :=
      fun c hc => Document.untitled_of_mem_program hc
    obtain ⟨hlines, htold, hsizes, hcount⟩ := complete_told place title opening next
      fun c hc => c.told (huntitled c hc).1
    have hnone : (linesOf (opening ++ next.program machine)).countP isSizeLine = 0 := by
      rw [hsizes, List.countP_eq_zero]
      exact fun c hc => by simp [(huntitled c hc).2]
    refine ⟨_, hlines, fun line hline => ?_, by rw [← hcount, hnone]; rfl⟩
    have hsize : ¬ isSizeLine line = true := List.countP_eq_zero.mp hnone line hline
    simpa [hsize] using htold line hline
  · obtain ⟨huntitled, hbreaks⟩ := p.breaks_program machine place
    obtain ⟨hlines, htold, hsizes, hcount⟩ := complete_told place title []
      (p.runFrom machine place none p.steps) fun c hc => c.told (huntitled c hc)
    exact ⟨_, hlines, htold, hsizes.le.trans hbreaks, hcount⟩

/-- A title with a line feed sends the machine home, by a line that is not counted. -/
theorem Sink.title_gives_instruction :
    let title := "board\nG28 X0"
    let line := "G28 X0".toList
    let written := ((start (Machine.default : Machine Float) id none).document ⟨[], .empty⟩ title).2
    (line, true) ∈ written.tape.lines ∧ ¬ IsComment line ∧ ¬ IsInstruction line ∧
      written.lines = 7 ∧ written.tape.lines.length = 8 := by
  intro title line written
  let next : Run Float := Document.runFrom .default id 0 false (.start .empty) []
  let opening : List (Command Float) := [.comment (.toolWidth Machine.default.toolWidth)]
  have htold : ∀ c ∈ opening ++ next.program .default, c.Told :=
    fun c hc => c.told (Document.untitled_of_mem_program (d := ⟨[], .empty⟩) hc).1
  obtain ⟨hlines, -, hsizes, hcount⟩ := complete_told id title opening next htold
  have hwritten : written.lines = 7 := (complete_written .default id _).2
  have hforms : ¬ ∃ form ∈ instructionForms, [' '].intercalate form.1 <+: line := by decide
  change written.tape.lines = _ at hlines
  refine ⟨?_, by decide, fun h => hforms h.exists_prefix, hwritten, ?_⟩
  · rw [hlines]
    refine List.mem_map_of_mem (List.mem_append_left _ (List.mem_append_left _ ?_))
    decide
  · rw [hsizes] at hcount
    rw [hlines, List.length_map, List.length_append, length_preambleLines]
    change written.lines + 0 = 3 + _ at hcount
    rw [Nat.add_zero, hwritten] at hcount
    have htitle : title.toList.count '\n' = 1 := by decide
    omega

end BoardMill.GCode
