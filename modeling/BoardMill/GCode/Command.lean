import BoardMill.Gerber.Document
import BoardMill.Numeral

/-! # Machine programs

A program is a list of commands, one a line. Points are absolute and in the frame
of the machine, lengths in millimetres.
-/

namespace BoardMill.GCode

/-- What a comment tells. -/
inductive Remark (α : Type) where
  | title (text : String)
  | toolWidth (width : α)
  | aperture (number : Nat) (strokeWidth : α)
  | regionStart
  | regionEnd
  | polarity (polarity : Gerber.Polarity)
  | tool (number : Nat) (shape : Char) (size : α)
  deriving BEq, Repr

/-- One line of a program. -/
inductive Command (α : Type) where
  | comment (remark : Remark α)
  /-- Absolute coordinates, no tool compensation, the plane of the board, millimetres. -/
  | setup
  | rapidZ (z : α)
  | rapid (target : Point α)
  /-- Travels to the origin of the machine. -/
  | home
  | spindleOn (speed : Nat)
  | spindleOff
  /-- Lowers the tool into the board. -/
  | plunge (z feed : α)
  | cut (target : Point α) (feed : α)
  /-- Cuts along an arc. The center is given by its offset from the current point. -/
  | arc (clockwise : Bool) (target offset : Point α) (feed : α)
  /-- Waits for the operator. -/
  | pause
  | finish
  deriving BEq, Repr

variable {α : Type}

/-- The text of a comment. -/
def Remark.text [Numeral α] : Remark α → String
  | title text => text
  | toolWidth width => s!"tool width {Numeral.fixed 4 width}"
  | aperture number width => s!"aperture D{number} width {Numeral.fixed 4 width}"
  | regionStart => "region start"
  | regionEnd => "region end"
  | polarity .dark => "polarity dark"
  | polarity .clear => "polarity clear"
  | tool number shape size => s!"tool T{number} {shape} {Numeral.fixed 4 size}"

namespace Command

/-- The line of a program, without its ending. Coordinates have four places. -/
def text [Numeral α] : Command α → String
  | comment remark => s!"; {remark.text}"
  | setup => "G90 G40 G17 G21"
  | rapidZ z => s!"G00 Z{Numeral.fixed 4 z}"
  | rapid p => s!"G00 X{Numeral.fixed 4 p.x} Y{Numeral.fixed 4 p.y}"
  | home => "G00 X0 Y0"
  | spindleOn speed => s!"M3 S{speed}"
  | spindleOff => "M5"
  | plunge z feed => s!"G01 Z{Numeral.fixed 4 z} F{Numeral.plain feed}"
  | cut p feed => s!"G01 X{Numeral.fixed 4 p.x} Y{Numeral.fixed 4 p.y} F{Numeral.plain feed}"
  | arc clockwise p offset feed =>
    let code := if clockwise then "G02" else "G03"
    let target := s!"X{Numeral.fixed 4 p.x} Y{Numeral.fixed 4 p.y}"
    let center := s!"I{Numeral.fixed 4 offset.x} J{Numeral.fixed 4 offset.y}"
    s!"{code} {target} {center} F{Numeral.plain feed}"
  | pause => "M0"
  | finish => "M30"

/-- Whether the tool is in the board with the spindle on after a command, given
whether it was before: from a plunge to the stop of the spindle. -/
def engagedAfter (engaged : Bool) : Command α → Bool
  | plunge .. => true
  | spindleOff => false
  | _ => engaged

end Command

/-- Whether the tool is in the board after some commands. -/
def engagedAfter (engaged : Bool) (commands : List (Command α)) : Bool :=
  commands.foldl Command.engagedAfter engaged

end BoardMill.GCode
