import BoardMill.Proofs.Coordinate.Sliced
import BoardMill.Proofs.Gerber.SlicedWords

/-! # Slices of documents

The steps of a reader are those that it takes without slices, and so is the document that they make.
-/

namespace BoardMill.Gerber

open Slicing

namespace Sliced

variable {α : Type} [Scalar α]

theorem coordinate?_eq (format : CoordinateFormat) (axis : Axis) (word : List Char) (missing : α)
    (field : Option (List Char)) :
    coordinate? format axis word missing field =
      sure (Reading.coordinate? format axis word missing field) := by
  cases field with
  | none => rfl
  | some text =>
      rw [coordinate?, Reading.coordinate?, CoordinateFormat.decodeSliced?_eq, pure_bind]
      cases (format.decode? axis text : Option α) <;> rfl

theorem operate_eq (r : Reading α) (line : Nat) (word : List Char) (f : Fields)
    (operation : Operation) :
    operate r line word f operation = sure (r.operate line word f operation) := by
  unfold operate Reading.operate
  cases r.format with
  | none => rfl
  | some format => simp only [coordinate?_eq, sure_bind, sure_pure]

theorem fields_eq (r : Reading α) (line : Nat) (word : List Char) (f : Fields) :
    fields r line word f = sure (r.fields line word f) := by
  unfold fields Reading.fields
  simp only [operate_eq]
  rcases f.d with _ | (_ | _ | _ | _ | code)
  · dsimp only
    split
    · cases r.operation <;> rfl
    · rfl
  · rfl
  · rfl
  · rfl
  · rfl
  · change (if _ then _ else _) = sure (if _ then _ else _)
    split
    · rfl
    · split <;> rfl

theorem word_eq (r : Reading α) (line : Nat) (text : List Char) :
    word r line text = sure (r.word line text) := by
  unfold word Reading.word
  rw [word?_eq, sure_bind]
  refine bind_congr fun found => ?_
  cases found with
  | finish => rfl
  | pause => rfl
  | drawing preparation found =>
      cases found with
      | none => rfl
      | some f => exact fields_eq _ line text f

theorem extended_eq (r : Reading α) (line : Nat) (text : List Char) :
    extended r line text = sure (r.extended line text) := by
  unfold extended Reading.extended
  rw [extended?_eq, sure_bind]
  refine bind_congr fun found => ?_
  cases found with
  | nothing => rfl
  | block block => cases block <;> rfl
  | define aperture =>
      dsimp only
      cases r.apertures.define aperture <;> rfl

theorem token_eq (r : Reading α) (t : Token) : token r t = sure (r.token t) := by
  unfold token Reading.token
  cases t.kind with
  | extended => exact extended_eq r t.line t.text
  | word => exact word_eq r t.line t.text

end Sliced

namespace Document

variable {α : Type} [Numeral α]

theorem readSlicedFrom_eq (lastLine : Nat) (r : Reading α) (tokens : List Token) :
    readSlicedFrom lastLine r tokens = sure (readFrom lastLine r tokens) := by
  induction tokens generalizing r with
  | nil =>
      rw [readSlicedFrom, readFrom]
      split <;> rfl
  | cons t rest ih =>
      rw [readSlicedFrom, readFrom, Sliced.token_eq]
      split
      · rfl
      · cases r.token t with
        | ok r => exact ih r
        | error defect => rfl

theorem ofTextSliced?_eq (text : List Char) :
    (ofTextSliced? text : Slicing Fault (Document α)) = sure (ofText? text) := by
  rw [ofTextSliced?, ofText?, Sliced.tokens_eq, pure_bind]
  cases Token.ofText text with
  | nil => rfl
  | cons t rest => exact readSlicedFrom_eq _ .start (t :: rest)

theorem ofBytesSliced?_eq (bytes : List UInt8) :
    (ofBytesSliced? bytes : Slicing Fault (Document α)) = sure (ofBytes? bytes) := by
  rw [ofBytesSliced?, ofBytes?]
  obtain ⟨text, rest⟩ := Utf8.decode bytes
  cases rest with
  | nil => exact ofTextSliced?_eq text
  | cons b rest => rfl

end Document

end BoardMill.Gerber
