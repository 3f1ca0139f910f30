import BoardMill.Drill.Extent
import BoardMill.Drill.Reading
import BoardMill.GCode.Sink
import BoardMill.Gerber.Extent
import BoardMill.Gerber.Reading
import BoardMill.Layer.Identification
import BoardMill.Noting

/-! # Layers

A layer is a fabrication file that is machined. Drill files are told by their name;
any other file is a layer only if it is a Gerber document, and what the document
says about itself counts before its name.
-/

namespace BoardMill

/-- What the file of a layer holds. -/
inductive LayerData (α : Type) where
  | gerber (document : Gerber.Document α)
  | drill (program : Drill.Program α)
  deriving BEq, Repr

/-- A machined layer of a board. The suffix tells its output from those of the other
layers. -/
structure Layer (α : Type) where
  name : String
  kind : LayerKind
  suffix : String
  data : LayerData α
  deriving BEq, Repr

namespace Layer

variable {α : Type}

/-- A layer that has the suffix of its kind. -/
def ofData (name : String) (kind : LayerKind) (data : LayerData α) : Layer α :=
  ⟨name, kind, kind.suffix, data⟩

/-- The name of the output of a layer. -/
def outputName (l : Layer α) (base : String) : String := s!"{base}-{l.suffix}.gcode"

/-- The title of the program of a layer. -/
def title (l : Layer α) : String := s!"pcb-cam {l.name} ({l.suffix})"

/-- The box of everything on a layer, in millimetres. -/
def bounds [Scalar α] (l : Layer α) : Except Fault (Box α) :=
  match l.data with
  | .gerber document => document.bounds
  | .drill program => program.bounds

variable [Numeral α]

/-- Writes the program of a layer. -/
def write (l : Layer α) (sink : GCode.Sink α) : Except Fault Unit × GCode.Sink α :=
  match l.data with
  | .gerber document => sink.document document l.title
  | .drill program => sink.drilling program l.title

/-- The kind of a document in a file whose name gives a kind. -/
def kindOf (byName : LayerKind) (document : Gerber.Document α) : LayerKind :=
  match document.fileFunction?.map LayerKind.ofFileFunction with
  | some .other | none => byName
  | some kind => kind

/-- The layer of a document, if it is machined. -/
def ofDocument? (name : String) (byName : LayerKind) (document : Gerber.Document α) :
    Option (Layer α) :=
  let kind := kindOf byName document
  if kind.isMachined then some (ofData name kind (.gerber document)) else none

/-- The layer of a drill file. -/
def ofDrillText (name : String) (text : List Char) : Noting (Layer α) := do
  let program ← NotingT.ofExcept (Drill.Program.ofText? text)
  NotingT.note program.notices
  return ofData name .drills (.drill program)

/-- The notice on a file that is passed over for a fault. -/
def skipNotice (name : String) (fault : Fault) : Notice :=
  ⟨.warning, s!"Board: skipping {name}: {fault.message}"⟩

/-- The layer of a file, if it is one that is machined. A file that holds no asterisk is
no document. A document with a fault is passed over if nothing in its name says that
it is machined. -/
def ofText (name : String) (text : List Char) : Noting (Option (Layer α)) := do
  let byName := LayerKind.ofFileName name
  if byName = .drills then
    return some (← ofDrillText name text)
  if !text.contains '*' then
    return none
  match Gerber.Document.ofText? text with
  | .ok document => return ofDocument? name byName document
  | .error fault =>
    if byName = .other then
      NotingT.note [skipNotice name fault]
      return none
    throw fault

end Layer

end BoardMill
