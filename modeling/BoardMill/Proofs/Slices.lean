import BoardMill.Proofs.Drill.Sliced
import BoardMill.Proofs.Gerber.SlicedReading
import BoardMill.Proofs.Layer.Sliced

/-! # No text breaks a reader down

Texts come from outside, and any character can stand anywhere in them. A reader that cut a text
inside of a character or behind its end would break down instead of refusing the text. Readers look
before they cut: at the first characters of a command, at whether a word has characters of several
bytes, at what was found and in which order. So every cut is in its place, and reading by slices
comes to what reading without them comes to (`Gerber.Document.ofTextSliced?_eq`,
`Drill.Program.ofTextSliced?_eq`, `LayerKind.ofFileNameSliced_eq`).
-/

namespace BoardMill

open Slicing

variable {α ε : Type} [Numeral α]

/-- Whatever text is read as a document, as a file name or as a line of a drill program, each cut of
it is at one of its ends or between two of its characters, and each item that is taken of a list is
there. The small letters of a file name are any text as well, and a line is read in any state of a
program. -/
theorem reading_inPlace (text : List Char) (digits : DigitCount) (r : Drill.Reading α) :
    InPlace (Gerber.Document.ofTextSliced? text : Slicing Fault (Gerber.Document α)) ∧
    InPlace (LayerKind.ofFileNameSliced (String.ofList text) : Slicing ε LayerKind) ∧
    InPlace (LayerKind.ofLoweredSliced text : Slicing ε LayerKind) ∧
    InPlace (Drill.definitionSliced? text : Slicing ε (Option (Nat × Drill.Tool α))) ∧
    InPlace (Drill.holeSliced? digits text : Slicing ε (Option (Drill.Step α))) ∧
    InPlace (r.lineSliced (Drill.directive text)) := by
  refine ⟨?document, ?fileName, ?lowered, ?definition, ?hole, ?line⟩
  case document =>
    rw [Gerber.Document.ofTextSliced?_eq]
    exact inPlace_sure _
  case fileName =>
    rw [LayerKind.ofFileNameSliced_eq]
    exact inPlace_sure (pure _)
  case lowered =>
    rw [LayerKind.ofLoweredSliced_eq]
    exact inPlace_sure (pure _)
  case definition =>
    rw [Drill.definitionSliced?_eq]
    exact inPlace_sure (pure _)
  case hole =>
    rw [Drill.holeSliced?_eq]
    exact inPlace_sure (pure _)
  case line =>
    rw [Drill.Reading.lineSliced_eq]
    exact inPlace_sure _

end BoardMill
