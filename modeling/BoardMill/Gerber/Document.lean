import BoardMill.Aperture.Table
import BoardMill.Coordinate
import BoardMill.Units

/-! # Gerber documents

A document is a list of blocks, each with the line it comes from, and a table of
apertures. Coordinates are absolute and in the units of the document: what a file
leaves unsaid because it was said before is filled in.
-/

namespace BoardMill.Gerber

/-- Whether copper is laid down or taken away. -/
inductive Polarity where
  | dark
  | clear
  deriving DecidableEq, Repr, Inhabited

/-- The curve from one point to the next. -/
inductive Interpolation where
  | linear
  | clockwise
  | counterclockwise
  deriving DecidableEq, Repr, Inhabited

/-- What an attribute is attached to; one kind deletes attributes. -/
inductive AttributeKind where
  | file
  | aperture
  | object
  | delete
  deriving DecidableEq, Repr

/-- One directive of a document. -/
inductive Block (α : Type) where
  /-- Makes an aperture the current one. -/
  | select (number : Nat)
  /-- Stamps the current aperture. -/
  | flash (target : Point α)
  /-- Moves without drawing. -/
  | move (target : Point α)
  /-- Draws to a point, around a center if the curve is an arc. -/
  | interpolate (mode : Interpolation) (target : Point α) (center : Option (Point α))
  | regionStart
  | regionEnd
  | polarity (polarity : Polarity)
  | attribute (kind : AttributeKind) (name : String) (args : List String)
  | format (format : CoordinateFormat)
  | units (units : Units)
  deriving BEq, Repr

/-- A value and the line of the text it comes from. -/
structure Located (β : Type) where
  line : Nat
  value : β
  deriving BEq, Repr

/-- The blocks of a file in their order, and its apertures. -/
structure Document (α : Type) where
  blocks : List (Located (Block α))
  apertures : ApertureTable α
  deriving BEq, Repr

namespace Document

variable {α : Type}

/-- The line of the last block, zero if there is none. -/
def lastLine (d : Document α) : Nat := (d.blocks.getLast?.map Located.line).getD 0

/-- What the first attribute for the function of the file says. -/
def fileFunction? (d : Document α) : Option (List String) :=
  d.blocks.findSome? fun b =>
    match b.value with
    | .attribute .file name args => if name = ".FileFunction" then some args else none
    | _ => none

end Document

end BoardMill.Gerber
