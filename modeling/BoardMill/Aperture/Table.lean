import BoardMill.Aperture

/-! # Aperture tables

A document defines each aperture number once and then refers to it.
-/

namespace BoardMill

/-- The apertures of a document, in the order of their definition. -/
structure ApertureTable (α : Type) where
  entries : List (Aperture α)
  deriving BEq, Repr

namespace ApertureTable

variable {α : Type}

/-- The table without apertures. -/
def empty : ApertureTable α := ⟨[]⟩

instance : Inhabited (ApertureTable α) := ⟨empty⟩

/-- The aperture of a number. -/
def get? (t : ApertureTable α) (number : Nat) : Option (Aperture α) :=
  t.entries.find? (·.number == number)

/-- Adds an aperture under a number that is not taken. -/
def define (t : ApertureTable α) (a : Aperture α) :
    Except (ApertureDefect α) (ApertureTable α) :=
  match t.get? a.number with
  | some _ => throw (.definedTwice a.number)
  | none => pure ⟨t.entries ++ [a]⟩

/-- How many apertures are defined. -/
def size (t : ApertureTable α) : Nat := t.entries.length

/-- Whether no aperture is defined. -/
def isEmpty (t : ApertureTable α) : Bool := t.entries.isEmpty

/-- The apertures in the order of their numbers. -/
def byNumber (t : ApertureTable α) : List (Aperture α) :=
  t.entries.mergeSort fun a b => a.number ≤ b.number

end ApertureTable

end BoardMill
