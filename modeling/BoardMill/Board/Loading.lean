import BoardMill.Archive
import BoardMill.Board
import BoardMill.Files

/-! # Loading boards

A board is loaded from the members of an archive, or from the files that share a base
name. Members that are no text are passed over with a notice, and so are documents
that need not be understood.
-/

namespace BoardMill.Board

variable {α : Type} [Numeral α]

/-- The notice on a member that is no text. -/
def notTextNotice (name : String) : Notice :=
  ⟨.warning, s!"Board: skipping non-text archive member {name}"⟩

/-- The layer of a member, if it is one. -/
def layerOfMember (m : Member) : Noting (Option (Layer α)) := do
  if let .sealed reason := m.content then
    throw (.badArchive reason)
  if m.isDirectory then
    return none
  match m.content.text? with
  | some text => Layer.ofText m.name text
  | none =>
    NotingT.note [notTextNotice m.name]
    return none

/-- The board of the layers in an archive, of which there is at least one. -/
def ofArchive (archive : Archive) : Noting (Board α) := do
  match (← archive.members.mapM layerOfMember).filterMap id with
  | [] => throw (.malformed 0 "no copper, outline or drill files in archive")
  | layers => ofLayers layers

/-- What follows the base name in the names of the files of a board. -/
def fileEndings : List String := ["-F_Cu.gbr", "-B_Cu.gbr", "-Edge_Cuts.gbr", ".drl"]

variable {m : Type → Type} [Monad m] [Files m]

/-- The layer of a file, if the file is there and is one. -/
def layerOfFile (path : String) : NotingT m (Option (Layer α)) := do
  if !(← (Files.isPresent path : m Bool)) then
    return none
  let text ← NotingT.ofExcept (← (Files.readText path : m _))
  (Layer.ofText path text).lift

/-- The board of the layers in the files of a base name, of which there is at least
one. -/
def ofFiles (base : String) : NotingT m (Board α) := do
  let found ← fileEndings.mapM fun ending => layerOfFile (base ++ ending)
  match found.filterMap id with
  | [] => throw (.fileAccess s!"no layer files found for {base}")
  | layers => (ofLayers layers).lift

end BoardMill.Board
