import BoardMill.GCode.Drilling
import BoardMill.GCode.Motion
import BoardMill.Text.Utf8

/-! # Writing programs

A sink writes commands to a tape, line by line. A tape may have room for a number
of bytes only: what fits of a line is stored, and from then on writing fails. The
sink remembers between programs whether the tool is in the board.
-/

namespace BoardMill.GCode

/-- Bytes that were stored, and how many more can be. -/
structure Tape where
  bytes : Array UInt8
  room : Option Nat
  deriving Repr

namespace Tape

/-- An empty tape with room for a number of bytes, or for all. -/
def blank (room : Option Nat) : Tape := ⟨#[], room⟩

/-- What a full tape says. -/
def fullFault : Fault := .fileAccess "disk full"

/-- Stores bytes, as far as they fit. -/
def write (t : Tape) (bytes : List UInt8) : Except Fault Unit × Tape :=
  match t.room with
  | none => (.ok (), { t with bytes := t.bytes ++ bytes })
  | some room =>
    let tape := ⟨t.bytes ++ bytes.take room, some (room - bytes.length)⟩
    if bytes.length ≤ room then (.ok (), tape) else (.error fullFault, tape)

end Tape

/-- Where a machine's programs are written. -/
structure Sink (α : Type) where
  machine : Machine α
  /-- Takes points of the board to points of the machine. -/
  place : Point α → Point α
  /-- Whether the tool is in the board with the spindle on. -/
  engaged : Bool
  /-- Lines begun so far. -/
  lines : Nat
  tape : Tape

namespace Sink

variable {α : Type}

/-- A sink to which nothing was written. -/
def start (machine : Machine α) (place : Point α → Point α) (room : Option Nat) : Sink α :=
  { machine, place, engaged := false, lines := 0, tape := .blank room }

variable [Numeral α]

/-- The bytes of a line. -/
def lineBytes (c : Command α) : List UInt8 := Utf8.encode (c.text.toList ++ ['\n'])

/-- Writes a command. The line is counted before it is written. -/
def write (s : Sink α) (c : Command α) : Except Fault Unit × Sink α :=
  match s.tape.write (lineBytes c) with
  | (.ok _, tape) =>
    (.ok (), { s with lines := s.lines + 1, tape, engaged := c.engagedAfter s.engaged })
  | (.error fault, tape) => (.error fault, { s with lines := s.lines + 1, tape })

/-- Writes commands until one does not fit. -/
def emit (s : Sink α) : List (Command α) → Except Fault Unit × Sink α
  | [] => (.ok (), s)
  | c :: rest =>
    match s.write c with
    | (.ok _, s) => s.emit rest
    | (.error fault, s) => (.error fault, s)

/-- Writes the commands of a run. The result is that of the run, unless a command does
not fit. -/
def play (s : Sink α) (run : Run α) : Except Fault Unit × Sink α :=
  match s.emit run.commands with
  | (.ok _, s) => (run.ending, s)
  | (.error fault, s) => (.error fault, s)

/-- Writes the commands of a block, given the state before it. -/
def block (s : Sink α) (b : Gerber.Located (Gerber.Block α)) (state : Gerber.State α) :
    Except Fault Unit × Sink α :=
  match b.value.commands s.machine s.place s.engaged b.line state with
  | .ok commands => s.emit commands
  | .error fault => (.error fault, s)

/-- Writes the end of a program. From here on the tool is taken to be out of the
board. -/
def trailer (s : Sink α) : Except Fault Unit × Sink α :=
  { s with engaged := false }.emit (GCode.trailer s.machine)

/-- Writes the commands of a run, and the end of the program if the run ends well. -/
def complete (s : Sink α) (run : Run α) : Except Fault Unit × Sink α :=
  match s.play run with
  | (.ok _, s) => s.trailer
  | (.error fault, s) => (.error fault, s)

/-- Writes the program of a document. -/
def document (s : Sink α) (d : Gerber.Document α) (title : String) :
    Except Fault Unit × Sink α :=
  s.complete (d.body s.machine s.place s.engaged title)

/-- Writes the program of a drill program. -/
def drilling (s : Sink α) (p : Drill.Program α) (title : String) :
    Except Fault Unit × Sink α :=
  s.complete (p.body s.machine s.place title)

end Sink

end BoardMill.GCode
