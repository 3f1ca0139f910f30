import BoardMill.Proofs.GCode.Posture
import BoardMill.Proofs.GCode.Writing
import BoardMill.Proofs.Splits

/-! # Lines of commands

The shape of a tool may be a line feed, and its comment is then read back as two lines. They
leave a machine as it stands, and are neither travels nor pauses nor plunges. The lines of a
program can therefore be told from its commands, even where they are not as many.
-/

namespace BoardMill.GCode

open Decimal (Marked)

variable {α : Type} [Numeral α]

/-- The lines that a command is read back as. -/
def Command.lines (c : Command α) : List (List Char) := c.line.splitOn '\n'

def linesOf (commands : List (Command α)) : List (List Char) := commands.flatMap Command.lines

theorem linesOf_append (first second : List (Command α)) :
    linesOf (first ++ second) = linesOf first ++ linesOf second :=
  List.flatMap_append

theorem Command.lines_eq_singleton {c : Command α} (h : '\n' ∉ c.line) : c.lines = [c.line] :=
  List.splitOn_eq_singleton h

theorem linesOf_eq_map {commands : List (Command α)} (h : ∀ c ∈ commands, '\n' ∉ c.line) :
    linesOf commands = commands.map Command.line := by
  rw [List.map_eq_flatMap]
  exact List.flatMap_congr fun c hc => Command.lines_eq_singleton (h c hc)

/-! ## What a sink wrote -/

namespace Sink

/-- The text of a program is what a fresh sink has on its tape if all went well, and the run
ended well. -/
theorem start_complete_text {machine : Machine α} {place : Point α → Point α}
    {room : Option Nat} {run : Run α}
    (hok : ((start machine place room).complete run).1 = .ok ()) :
    run.ending = .ok () ∧ ((start machine place room).complete run).2.tape.text =
      Text.marked '\n' ((run.program machine).map Command.line) := by
  obtain ⟨htape, hresult⟩ := start_complete_tape machine place room run
  rw [hok] at hresult
  rcases Tape.blank_write room (programBytes (run.program machine)) with
    ⟨hwhole, hbytes⟩ | ⟨hfull, -⟩
  · rw [hwhole] at hresult
    refine ⟨hresult.symm, ?_⟩
    rw [Tape.text, htape, hbytes, programBytes_eq_encode, Utf8.decode_encode]
  · rw [hfull] at hresult
    cases hresult

/-- The text of a run that ends well stops the spindle and the machine in the end. -/
theorem end_suffix_text (machine : Machine α) {run : Run α} (h : run.ending = .ok ()) :
    "M5\nM30\n".toList <:+ Text.marked '\n' ((run.program machine).map Command.line) := by
  rw [Run.program, h]
  exact ⟨Text.marked '\n' ((run.commands ++ [Command.rapidZ machine.safeZ]).map Command.line),
    by simp [Text.marked, GCode.trailer, Command.line, Command.text]⟩

/-- Its lines are those of the commands, all of them complete. -/
theorem start_complete_linesOf {machine : Machine α} {place : Point α → Point α}
    {room : Option Nat} {run : Run α}
    (hok : ((start machine place room).complete run).1 = .ok ()) :
    ((start machine place room).complete run).2.tape.lines =
      (linesOf (run.program machine)).map (·, true) := by
  rw [Tape.lines, (start_complete_text hok).2, Text.terminated_marked_splitOn, List.flatMap_map]
  rfl

theorem write_lines (s : Sink α) (c : Command α) : (s.write c).2.lines = s.lines + 1 := by
  unfold write
  split <;> rfl

/-- A sink counts the commands that it wrote. -/
theorem emit_lines {s : Sink α} {commands : List (Command α)} (hok : (s.emit commands).1 = .ok ()) :
    (s.emit commands).2.lines = s.lines + commands.length := by
  induction commands generalizing s with
  | nil => rfl
  | cons c rest ih =>
      have hwrite := write_lines s c
      unfold emit at hok ⊢
      generalize s.write c = written at hok hwrite ⊢
      obtain ⟨result, next⟩ := written
      cases result with
      | error fault => cases hok
      | ok _ =>
          rw [ih hok, hwrite, List.length_cons, Nat.add_assoc, Nat.add_comm 1]

theorem complete_lines {s : Sink α} {run : Run α} (hok : (s.complete run).1 = .ok ()) :
    (s.complete run).2.lines = s.lines + (run.program s.machine).length := by
  have hmachine := emit_machine s run.commands
  have hemit : (s.emit run.commands).1 = .ok () →
      (s.emit run.commands).2.lines = s.lines + run.commands.length := emit_lines
  unfold complete play Run.program at *
  generalize s.emit run.commands = emitted at *
  obtain ⟨result, next⟩ := emitted
  dsimp only at hmachine hemit
  cases result with
  | error fault => cases hok
  | ok _ =>
      cases hend : run.ending with
      | error fault =>
          rw [hend] at hok
          cases hok
      | ok _ =>
          rw [hend] at hok
          dsimp only at hok ⊢
          unfold trailer at hok ⊢
          rw [emit_lines hok, List.length_append, ← Nat.add_assoc, ← hemit rfl, hmachine]

end Sink

/-! ## Lines that tell a machine nothing -/

/-- A line that leaves a machine as it stands, and begins as a comment or with a blank. -/
structure Idle (line : List Char) : Prop where
  read : ∀ p : Posture, p.read line = p
  head : line.head? = some ';' ∨ line.head? = some ' '

theorem Idle.not_prefix {line rest : List Char} {c : Char} (h : Idle line) (hcomment : c ≠ ';')
    (hblank : c ≠ ' ') : ¬ (c :: rest) <+: line := by
  rintro ⟨more, rfl⟩
  rcases h.head with hhead | hhead
  · exact hcomment (Option.some.inj hhead)
  · exact hblank (Option.some.inj hhead)

theorem idle_of_comment {line : List Char} (h : line.head? = some ';') : Idle line where
  read := fun p => by simp [Posture.read, wordsOf, h]
  head := .inl h

/-- A number behind a blank is no word that a machine takes notice of. -/
theorem idle_of_marked {text : List Char} (h : Marked text) : Idle (' ' :: text) where
  read := fun p => by
    have hwords : wordsOf (' ' :: text) = [[], text] := by
      rw [wordsOf, if_neg (by simp)]
      have hblank : ' ' ∉ text := h.not_mem rfl
      rw [← List.nil_append (' ' :: text), List.splitOn_append_cons_self, List.splitOn_nil,
        List.splitOn_eq_singleton hblank]
      rfl
    have hword (w : List Char) (hw : w.head? = some 'M' ∨ w.head? = some 'Z') : text ≠ w := by
      rintro rfl
      rcases hw with hw | hw
      · exact h.not_mem rfl (List.mem_of_mem_head? hw)
      · exact h.not_mem rfl (List.mem_of_mem_head? hw)
    have hspin := hword ['M', '3'] (.inl rfl)
    have hstop := hword ['M', '5'] (.inl rfl)
    have hheight : text.head? ≠ some 'Z' := fun hz => hword text (.inr hz) rfl
    simp [Posture.read, hwords, hspin.symm, hstop.symm, hheight]
  head := .inr rfl

theorem Posture.readAll_idle {lines : List (List Char)} (h : ∀ line ∈ lines, Idle line)
    (p : Posture) : p.readAll lines = p := by
  induction lines with
  | nil => rfl
  | cons line rest ih =>
      obtain ⟨hline, hrest⟩ := List.forall_mem_cons.mp h
      rw [readAll_cons, hline.read, ih hrest]

/-! ## Commands that are read as they are meant -/

/-- A command is read as it is meant if it is no comment, or a comment whose lines tell a
machine nothing. -/
inductive Command.Legible : Command α → Prop where
  | plain {c : Command α} : (∀ remark, c ≠ .comment remark) → Legible c
  | comment {remark : Remark α} : (∀ line ∈ (Command.comment remark).lines, Idle line) →
      Legible (.comment remark)

/-- A line at which the operator is waited for, or the tool goes into the board. -/
def isPauseOrPlunge (line : List Char) : Bool :=
  line = "M0".toList ∨ "G01 Z".toList <+: line

def Command.pausesOrPlunges : Command α → Bool
  | pause | plunge .. => true
  | _ => false

/-- The commands whose lines begin as those of travels. -/
def Command.Travels : Command α → Prop
  | rapid _ | home => True
  | _ => False

namespace Command

variable [PlainNumeral α] {c : Command α}

theorem lines_of_ne_comment (hc : ∀ remark, c ≠ comment remark) : c.lines = [c.line] :=
  lines_eq_singleton (c.newline_not_mem_line fun remark h => absurd h (hc remark))

omit [PlainNumeral α] in
theorem lines_title {title : String} (h : '\n' ∉ title.toList) :
    (comment (.title title) : Command α).lines = [(comment (.title title) : Command α).line] :=
  lines_eq_singleton (by simpa [Remark.text] using h)

omit [PlainNumeral α] in
theorem legible_title {title : String} (h : '\n' ∉ title.toList) :
    (comment (.title title) : Command α).Legible := by
  refine .comment fun line hline => idle_of_comment ?_
  rw [lines_title h, List.mem_singleton] at hline
  rw [hline, line_comment]
  rfl

/-- A tool comment is a line, or two if the shape of the tool breaks it. -/
theorem lines_tool (number : Nat) (shape : Char) (size : α) :
    (comment (.tool number shape size)).lines =
      if shape = '\n' then
        [s!"; tool T{number} ".toList, ' ' :: (Numeral.fixed 4 size).toList]
      else [(comment (.tool number shape size)).line] := by
  split
  next hshape =>
    subst hshape
    have hnumber : '\n' ∉ Nat.toDigits 10 number :=
      (Decimal.marked_toDigits number).not_mem rfl
    have hsize : '\n' ∉ (Numeral.fixed 4 size).toList :=
      (PlainNumeral.marked_fixed 4 size).not_mem rfl
    have hline : (comment (.tool number '\n' size)).line =
        s!"; tool T{number} ".toList ++ '\n' :: ' ' :: (Numeral.fixed 4 size).toList := by
      simp [Remark.text, toString]
    rw [lines, hline, List.splitOn_append_cons_self_of_not_mem (by simp [toString, hnumber]),
      List.splitOn_eq_singleton (by simp [hsize])]
  next hshape =>
    refine lines_eq_singleton (newline_not_mem_line _ ?_)
    rintro remark hremark
    cases hremark
    refine newline_not_mem_remark _ (fun title h => by cases h) ?_
    rintro number shape size h
    cases h
    exact hshape

theorem legible_tool (number : Nat) (shape : Char) (size : α) :
    (comment (.tool number shape size)).Legible := by
  refine .comment fun line hline => ?_
  rw [lines_tool] at hline
  split at hline
  next =>
    rcases List.mem_pair.mp hline with rfl | rfl
    · exact idle_of_comment (by simp [toString])
    · exact idle_of_marked (PlainNumeral.marked_fixed 4 size)
  next =>
    rw [List.mem_singleton.mp hline, line_comment]
    exact idle_of_comment rfl

namespace Legible

theorem readAll_lines (h : c.Legible) (p : Posture) : p.readAll c.lines = p.after c := by
  cases h with
  | plain hc => rw [lines_of_ne_comment hc, Posture.readAll_cons, Posture.read_line, Posture.readAll_nil]
  | comment hidle => exact Posture.readAll_idle hidle p

theorem filter_lines (h : c.Legible) :
    c.lines.filter isPauseOrPlunge = if c.pausesOrPlunges then [c.line] else [] := by
  cases h with
  | plain hc =>
      have hline : isPauseOrPlunge c.line = c.pausesOrPlunges := by
        cases c with
        | comment remark => exact absurd rfl (hc remark)
        | arc clockwise =>
            cases clockwise <;> simp [isPauseOrPlunge, pausesOrPlunges, line, text, toString]
        | _ => simp [isPauseOrPlunge, pausesOrPlunges, line, text, toString]
      rw [lines_of_ne_comment hc, List.filter_singleton, hline, Bool.cond_eq_ite]
  | comment hidle =>
      refine List.filter_eq_nil_iff.mpr fun line hline hmark => ?_
      have hline := hidle line hline
      rcases of_decide_eq_true hmark with rfl | hplunge
      · exact hline.not_prefix (by decide) (by decide) List.prefix_rfl
      · exact hline.not_prefix (by decide) (by decide) hplunge

/-- Among the lines of a command only the first can begin as a travel, and only if the command
is one. -/
theorem travels (h : c.Legible) {before after : List (List Char)} {line : List Char}
    (hsplit : c.lines = before ++ line :: after) (htravel : "G00 X".toList <+: line) :
    before = [] ∧ c.Travels := by
  cases h with
  | plain hc =>
      rw [lines_of_ne_comment hc] at hsplit
      rcases List.append_eq_singleton_iff.mp hsplit.symm with ⟨rfl, hline⟩ | ⟨-, hnil⟩
      · obtain ⟨rfl, -⟩ := List.cons.inj hline
        refine ⟨rfl, ?_⟩
        cases c with
        | comment remark => exact absurd rfl (hc remark)
        | rapid p => trivial
        | home => trivial
        | arc clockwise => cases clockwise <;> simp [Command.line, text, toString] at htravel
        | _ => simp [Command.line, text, toString] at htravel
      · exact absurd hnil (List.cons_ne_nil _ _)
  | comment hidle =>
      have hline := hidle line (by rw [hsplit]; exact List.mem_append_right _ List.mem_cons_self)
      exact absurd htravel (hline.not_prefix (by decide) (by decide))

end Legible

end Command

/-! ## Programs that are read as they are meant -/

section Programs

variable [PlainNumeral α] {commands : List (Command α)}

theorem readAll_linesOf (h : ∀ c ∈ commands, c.Legible) (p : Posture) :
    p.readAll (linesOf commands) = commands.foldl .after p := by
  induction commands generalizing p with
  | nil => rfl
  | cons c rest ih =>
      obtain ⟨hc, hrest⟩ := List.forall_mem_cons.mp h
      rw [linesOf, List.flatMap_cons, Posture.readAll_append, hc.readAll_lines]
      exact ih hrest _

theorem filter_linesOf (h : ∀ c ∈ commands, c.Legible) :
    (linesOf commands).filter isPauseOrPlunge =
      (commands.filter Command.pausesOrPlunges).map Command.line := by
  induction commands with
  | nil => rfl
  | cons c rest ih =>
      obtain ⟨hc, hrest⟩ := List.forall_mem_cons.mp h
      rw [linesOf, List.flatMap_cons, List.filter_append, hc.filter_lines, List.filter_cons]
      split
      · rw [List.map_cons, ← ih hrest]
        rfl
      · exact ih hrest

/-- A line that begins as a travel comes from one, and the lines before it from the commands
before it. -/
theorem exists_travels_of_linesOf (h : ∀ c ∈ commands, c.Legible)
    {before after : List (List Char)} {line : List Char}
    (hsplit : linesOf commands = before ++ line :: after) (htravel : "G00 X".toList <+: line) :
    ∃ front c rest, commands = front ++ c :: rest ∧ c.Travels ∧ before = linesOf front := by
  induction commands generalizing before with
  | nil => simp [linesOf] at hsplit
  | cons c rest ih =>
      obtain ⟨hc, hrest⟩ := List.forall_mem_cons.mp h
      rw [linesOf, List.flatMap_cons] at hsplit
      rcases List.append_eq_append_iff.mp hsplit with ⟨later, rfl, hlater⟩ | ⟨later, hfirst, hlater⟩
      · obtain ⟨front, next, others, rfl, hnext, rfl⟩ := ih hrest hlater
        exact ⟨c :: front, next, others, rfl, hnext, rfl⟩
      · -- The line belongs to the first command, or is the first line behind it.
        cases later with
        | nil =>
            rw [List.append_nil] at hfirst
            have hlater : linesOf rest = [] ++ line :: after := hlater.symm
            obtain ⟨front, next, others, rfl, hnext, hnil⟩ := ih hrest hlater
            refine ⟨c :: front, next, others, rfl, hnext, ?_⟩
            rw [linesOf, List.flatMap_cons, ← linesOf, ← hnil, List.append_nil, hfirst]
        | cons head tail =>
            obtain ⟨rfl, -⟩ := List.cons.inj hlater
            obtain ⟨rfl, htravels⟩ := hc.travels hfirst htravel
            exact ⟨[], c, rest, rfl, htravels, rfl⟩

end Programs

end BoardMill.GCode
