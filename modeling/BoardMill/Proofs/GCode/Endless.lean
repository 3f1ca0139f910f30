import BoardMill.Proofs.GCode.Writing

/-! # Tapes without an end

On a tape with room for all, writing never fails. What becomes of a sink can then be said at once:
the bytes of all commands stand behind those that were there, every command is counted, and the
tool is where the commands leave it.
-/

namespace BoardMill.GCode

variable {α : Type} [Numeral α]

namespace Sink

/-- A sink to which some more commands were written. -/
def behind (s : Sink α) (commands : List (Command α)) : Sink α :=
  { s with
    engaged := engagedAfter s.engaged commands
    lines := s.lines + commands.length
    tape := { s.tape with bytes := s.tape.bytes ++ programBytes commands } }

theorem behind_nil (s : Sink α) : s.behind [] = s := by
  simp [behind, programBytes, engagedAfter]

theorem behind_append (s : Sink α) (first second : List (Command α)) :
    s.behind (first ++ second) = (s.behind first).behind second := by
  simp only [behind, engagedAfter, List.foldl_append, List.length_append, Nat.add_assoc,
    programBytes_append, Tape.append_bytes]

variable {s : Sink α}

theorem write_endless (h : s.tape.room = none) (c : Command α) :
    s.write c = (.ok (), s.behind [c]) := by
  obtain ⟨machine, place, engaged, lines, bytes, room⟩ := s
  cases h
  simp [write, Tape.write, behind, programBytes, engagedAfter]

theorem emit_endless (h : s.tape.room = none) (commands : List (Command α)) :
    s.emit commands = (.ok (), s.behind commands) := by
  induction commands generalizing s with
  | nil => rw [emit, behind_nil]
  | cons c rest ih =>
      have hnext : (s.behind [c]).tape.room = none := h
      rw [emit, write_endless h]
      dsimp only
      rw [ih hnext, ← behind_append, List.singleton_append]

/-- A run is written with its end if it ends well, and up to where it stops if not. -/
theorem complete_endless (h : s.tape.room = none) (run : Run α) :
    s.complete run = (run.ending, s.behind (run.program s.machine)) := by
  rw [complete, play, emit_endless h, Run.program]
  cases run.ending with
  | error fault => rfl
  | ok _ =>
      have hroom : { s.behind run.commands with engaged := false }.tape.room = none := h
      dsimp only
      rw [trailer, emit_endless hroom, behind_append]
      rfl

end Sink

end BoardMill.GCode
