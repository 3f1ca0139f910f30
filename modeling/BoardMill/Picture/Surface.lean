import BoardMill.Box
import BoardMill.Fault
import BoardMill.Numeral

/-! # Surfaces

A surface is a grid of pixels that shows a box with a margin around it. Pixels are
counted from the upper left corner, so the second axis goes down. Surfaces are
limited in size.
-/

namespace BoardMill

/-- How a picture is made. -/
structure PictureOptions (α : Type) where
  /-- Pixels per millimetre. -/
  scale : α
  /-- Empty pixels on all four sides. -/
  margin : UInt32
  /-- Apertures are stamped with their holes. -/
  cutHoles : Bool
  deriving Repr

/-- What applies where nothing else is said. -/
def PictureOptions.default {α : Type} [Scalar α] : PictureOptions α := ⟨40.0, 4, true⟩

/-- Takes points of a drawing to points of a surface. -/
structure Frame (α : Type) where
  scale : α
  /-- Where the first axis begins. -/
  left : α
  /-- Where the second axis begins. -/
  base : α
  deriving BEq, Repr

/-- A grid of pixels and the points it shows. -/
structure Surface (α : Type) where
  width : Nat
  height : Nat
  frame : Frame α
  deriving BEq, Repr

variable {α : Type} [Scalar α]

/-- The point of the surface that shows a point. All steps are in single precision. -/
def Frame.toPixels (f : Frame α) (p : Point α) : Point α where
  x := Scalar.single (Scalar.single (f.scale * Scalar.single p.x) + f.left)
  y := Scalar.single (Scalar.single (-f.scale * Scalar.single p.y) + f.base)

namespace Surface

/-- The greatest number of pixels on a side. -/
def sideLimit : α := 32768.0

/-- How many pixels show a length, with padding. There is at least one, and no more than
the limit. -/
def side? (length : α) (padding : Nat) : Option Nat :=
  let side := Scalar.ceil length + Scalar.ofNat padding
  if Scalar.isFinite side && side ≤ sideLimit then some (Scalar.toNat (Scalar.max side 1.0))
  else none

/-- Width and height for two lengths, with the same padding. -/
def sides? (width height : α) (padding : Nat) : Option (Nat × Nat) := do
  return (← side? width padding, ← side? height padding)

/-- The padding of a margin on both sides, a word of 32 bits. -/
def padding? (margin : UInt32) : Option Nat :=
  if 2 * margin.toNat < 0x100000000 then some (2 * margin.toNat) else none

/-- Width and height of the surface for a box. -/
def size? (box : Box α) (options : PictureOptions α) : Option (Nat × Nat) := do
  sides? (box.width * options.scale) (box.height * options.scale) (← padding? options.margin)

/-- The frame that puts the anchor of a box into the lower left corner, inside the
margin. -/
def frameOf (box : Box α) (options : PictureOptions α) (height : Nat) : Frame α :=
  let margin := Scalar.ofNat options.margin.toNat
  { scale := Scalar.single options.scale
    left := Scalar.single (margin - box.anchor.x * options.scale)
    base := Scalar.single (Scalar.ofNat height - margin + box.anchor.y * options.scale) }

/-- The fault of a box that needs too many pixels. -/
def tooLarge {α : Type} [Numeral α] (box : Box α) (scale : α) : Fault :=
  .unrenderable <| s!"{Numeral.fixed 3 box.width}x{Numeral.fixed 3 box.height} mm drawing " ++
    s!"is too large to render at {Numeral.plain scale} px/mm"

/-- The surface for a box. -/
def ofBox {α : Type} [Numeral α] (box : Box α) (options : PictureOptions α) :
    Except Fault (Surface α) :=
  match size? box options with
  | some (width, height) => pure ⟨width, height, frameOf box options height⟩
  | none => throw (tooLarge box options.scale)

end Surface

end BoardMill
