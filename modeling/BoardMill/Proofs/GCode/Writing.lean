import BoardMill.GCode.Sink
import BoardMill.Proofs.GCode.Words
import BoardMill.Proofs.Text.Lines
import BoardMill.Proofs.Text.Utf8

/-! # What a sink leaves on its tape

Writing commands one after the other is writing all of their bytes at once. A fresh
tape therefore ends up with all lines of a program, or, if there is no room for them,
with the first lines and the beginning of the next one.
-/

namespace BoardMill.GCode

namespace Tape

/-- The text on a tape, up to a character that was cut off. -/
def text (t : Tape) : List Char := (Utf8.decode t.bytes.toList).1

/-- The lines on a tape, each with a flag that tells whether it is complete. -/
def lines (t : Tape) : List (List Char × Bool) := Text.terminated '\n' t.text

theorem append_bytes (bytes : Array UInt8) (first second : List UInt8) :
    bytes ++ (first ++ second) = bytes ++ first ++ second :=
  Array.ext' (by simp)

theorem write_nil (t : Tape) : t.write [] = (.ok (), t) := by
  obtain ⟨bytes, room⟩ := t
  cases room <;> simp [write]

/-- Writing two byte sequences after each other is writing both at once. -/
theorem write_append (t : Tape) (first second : List UInt8) :
    t.write (first ++ second) =
      match t.write first with
      | (.ok _, t) => t.write second
      | (.error fault, t) => (.error fault, t) := by
  obtain ⟨bytes, room⟩ := t
  cases room with
  | none => simp [write, append_bytes]
  | some room =>
      by_cases hfirst : first.length ≤ room
      · have hfit : first.length + second.length ≤ room ↔
            second.length ≤ room - first.length := by omega
        simp only [write, if_pos hfirst, List.length_append, List.take_append,
          List.take_of_length_le hfirst, append_bytes, hfit, Nat.sub_sub]
      · have hboth : ¬ (first ++ second).length ≤ room := by
          rw [List.length_append]
          omega
        have htake : (first ++ second).take room = first.take room :=
          List.take_append_of_le_length (Nat.le_of_not_le hfirst)
        have hroom : room - (first ++ second).length = room - first.length := by
          rw [List.length_append]
          omega
        simp only [write, if_neg hfirst, if_neg hboth, htake, hroom]

/-- A fresh tape takes a byte sequence whole if it fits, and otherwise as much of it as
fits. -/
theorem blank_write (room : Option Nat) (bytes : List UInt8) :
    ((blank room).write bytes).1 = .ok () ∧
        ((blank room).write bytes).2.bytes.toList = bytes ∨
      ((blank room).write bytes).1 = .error fullFault ∧
        ∃ n < bytes.length, ((blank room).write bytes).2.bytes.toList = bytes.take n := by
  cases room with
  | none => exact .inl ⟨rfl, by simp [write, blank]⟩
  | some room =>
      by_cases hfit : bytes.length ≤ room
      · exact .inl ⟨by simp [write, blank, hfit],
          by simp [write, blank, hfit, List.take_of_length_le hfit]⟩
      · exact .inr ⟨by simp [write, blank, hfit], room, Nat.lt_of_not_le hfit,
          by simp [write, blank, hfit]⟩

end Tape

variable {α : Type}

/-- All commands of a run: the end of the program follows if the run ends well. -/
def Run.program (machine : Machine α) (run : Run α) : List (Command α) :=
  match run.ending with
  | .ok _ => run.commands ++ trailer machine
  | .error _ => run.commands

/-- The program of a run that ends well has its end. -/
theorem Run.getLast?_program (machine : Machine α) {run : Run α} (h : run.ending = .ok ()) :
    (run.program machine).getLast? = some .finish := by
  rw [program, h, List.getLast?_append]
  rfl

variable [Numeral α]

namespace Sink

def programBytes (commands : List (Command α)) : List UInt8 := commands.flatMap lineBytes

theorem programBytes_append (first second : List (Command α)) :
    programBytes (first ++ second) = programBytes first ++ programBytes second :=
  List.flatMap_append

/-- The bytes of commands are those of the text of their lines. -/
theorem programBytes_eq_encode (commands : List (Command α)) :
    programBytes commands = Utf8.encode (Text.marked '\n' (commands.map Command.line)) := by
  rw [programBytes, Text.marked, Utf8.encode, List.flatMap_map, List.flatMap_assoc]
  rfl

/-- A command is written as its bytes are. -/
theorem write_tape (s : Sink α) (c : Command α) :
    ((s.write c).1, (s.write c).2.tape) = s.tape.write (lineBytes c) := by
  unfold write
  rcases s.tape.write (lineBytes c) with ⟨result, tape⟩
  cases result <;> rfl

theorem write_machine (s : Sink α) (c : Command α) : (s.write c).2.machine = s.machine := by
  unfold write
  split <;> rfl

theorem emit_tape (s : Sink α) (commands : List (Command α)) :
    ((s.emit commands).1, (s.emit commands).2.tape) = s.tape.write (programBytes commands) := by
  induction commands generalizing s with
  | nil => exact (Tape.write_nil s.tape).symm
  | cons c rest ih =>
      have htape := write_tape s c
      rw [programBytes, List.flatMap_cons, Tape.write_append, ← htape, emit]
      rcases s.write c with ⟨result, next⟩
      cases result with
      | ok _ => exact ih next
      | error fault => rfl

theorem emit_machine (s : Sink α) (commands : List (Command α)) :
    (s.emit commands).2.machine = s.machine := by
  induction commands generalizing s with
  | nil => rfl
  | cons c rest ih =>
      rw [emit, ← write_machine s c]
      rcases s.write c with ⟨result, next⟩
      cases result with
      | ok _ => exact ih next
      | error fault => rfl

/-- The program of a complete run is written, and the ending of the run is the result if all
of it fits. -/
theorem complete_tape (s : Sink α) (run : Run α) :
    (s.complete run).2.tape = (s.tape.write (programBytes (run.program s.machine))).2 ∧
      (s.complete run).1 =
        match (s.tape.write (programBytes (run.program s.machine))).1 with
        | .ok _ => run.ending
        | .error fault => .error fault := by
  have hemit := emit_tape s run.commands
  have hmachine := emit_machine s run.commands
  unfold complete play Run.program
  generalize s.emit run.commands = emitted at hemit hmachine ⊢
  obtain ⟨result, next⟩ := emitted
  dsimp only at hemit hmachine
  cases result with
  | error fault =>
      cases run.ending with
      | ok _ => simp [programBytes_append, Tape.write_append, ← hemit]
      | error _ => simp [← hemit]
  | ok _ =>
      cases run.ending with
      | error _ => simp [← hemit]
      | ok _ =>
          -- The trailer is that of the machine at the start, which writing does not change.
          have htrailer := emit_tape { next with engaged := false } (GCode.trailer s.machine)
          dsimp only at htrailer
          simp only [programBytes_append, Tape.write_append, ← hemit, ← htrailer, trailer, hmachine]
          refine ⟨trivial, ?_⟩
          split
          next hlast => rw [hlast]
          next hlast => exact hlast

/-! ## Lines of a fresh tape -/

theorem start_complete_tape (machine : Machine α) (place : Point α → Point α)
    (room : Option Nat) (run : Run α) :
    ((start machine place room).complete run).2.tape =
        ((Tape.blank room).write (programBytes (run.program machine))).2 ∧
      ((start machine place room).complete run).1 =
        match ((Tape.blank room).write (programBytes (run.program machine))).1 with
        | .ok _ => run.ending
        | .error fault => .error fault :=
  complete_tape (start machine place room) run

/-- What a fresh sink leaves of a complete run whose lines are single lines: all lines of its
program, with the ending of the run as the result, or the first lines and the beginning of
the next one, with the fault of a full tape. -/
theorem start_complete_lines (machine : Machine α) (place : Point α → Point α)
    (room : Option Nat) (run : Run α)
    (hlines : ∀ c ∈ run.program machine, '\n' ∉ c.line) :
    (((start machine place room).complete run).1 = run.ending ∧
        ((start machine place room).complete run).2.tape.lines =
          (run.program machine).map (·.line, true)) ∨
      (((start machine place room).complete run).1 = .error Tape.fullFault ∧
        ∃ before next after rest, run.program machine = before ++ next :: after ∧
          rest <+: next.line ∧
          ((start machine place room).complete run).2.tape.lines =
            before.map (·.line, true) ++ Text.unfinished rest) := by
  obtain ⟨htape, hresult⟩ := start_complete_tape machine place room run
  have hsingle : ∀ l ∈ (run.program machine).map Command.line, '\n' ∉ l :=
    List.forall_mem_map.mpr hlines
  rcases Tape.blank_write room (programBytes (run.program machine)) with
    ⟨hok, hbytes⟩ | ⟨hfull, n, hn, hbytes⟩
  · refine .inl ⟨by rw [hresult, hok], ?_⟩
    rw [Tape.lines, Tape.text, htape, hbytes, programBytes_eq_encode, Utf8.decode_encode,
      Text.terminated_marked hsingle, List.map_map]
    rfl
  · refine .inr ⟨by rw [hresult, hfull], ?_⟩
    rw [programBytes_eq_encode] at hn hbytes
    obtain ⟨before, next, after, rest, hpieces, hrest, hread⟩ :=
      Text.exists_terminated_of_cut hsingle (Utf8.decode_take_encode_start _ n)
        (Utf8.decode_take_encode_ne _ hn)
    obtain ⟨first, last, hprogram, rfl, hlast⟩ := List.map_eq_append_iff.mp hpieces
    obtain ⟨command, others, rfl, rfl, -⟩ := List.map_eq_cons_iff.mp hlast
    refine ⟨first, command, others, rest, hprogram, hrest, ?_⟩
    rw [Tape.lines, Tape.text, htape, programBytes_eq_encode, hbytes, hread, List.map_map]
    rfl

end Sink

end BoardMill.GCode
