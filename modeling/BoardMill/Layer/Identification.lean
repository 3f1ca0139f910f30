import BoardMill.Decimal.Reading
import BoardMill.Layer.Kind
import BoardMill.Text.Search

/-! # Identifying layers

The kind of a layer follows from the attribute for the function of its file, or
from the conventions that programs for board design follow in file names.
-/

namespace BoardMill.LayerKind

/-- Inner copper of a number. -/
def inner (number : Nat) : LayerKind := copperInner s!"In{number}"

/-- The number of a copper layer, written behind the letter `L`. -/
def layerNumber? (text : String) : Option Nat :=
  match text.toList with
  | 'L' :: digits => Decimal.readWord32? digits
  | _ => none

/-- The copper layer of a number on a side. Numbers count from the top layer on,
names of inner copper from the first inner layer. -/
def ofCopper (number : Option Nat) (side : Option String) : LayerKind :=
  match side with
  | some "Top" => copperTop
  | some "Bot" | some "Bottom" => copperBottom
  | some "Inr" | some "Inner" =>
    match number with
    | some n => if 1 < n then inner (n - 1) else inner 1
    | none => inner 1
  | _ => other

/-- The kind that the attribute for the function of a file gives. -/
def ofFileFunction : List String → LayerKind
  | "Copper" :: args => ofCopper (args[0]? >>= layerNumber?) args[1]?
  | "Profile" :: _ => outline
  | "Plated" :: _ => drills
  | "NonPlated" :: _ => drills
  | _ => other

/-- A letter as a small letter, as far as file name conventions have letters. The
Kelvin sign is a form of the letter `K`. -/
def lower (c : Char) : Char := if c = '\u212a' then 'k' else Decimal.lower c

/-- The name of a file without its directories. -/
def baseName (path : List Char) : List Char := Text.lastPart '\\' (Text.lastPart '/' path)

/-- The kind that the extension of a name gives. -/
def ofExtension? (extension : String) : Option LayerKind :=
  match extension with
  | "drl" | "xln" | "exc" => some drills
  | "gtl" | "cmp" => some copperTop
  | "gbl" | "sol" => some copperBottom
  | "g1" => some (copperInner "In1")
  | "g2" => some (copperInner "In2")
  | "g3" => some (copperInner "In3")
  | "g4" => some (copperInner "In4")
  | "g5" => some (copperInner "In5")
  | "g6" => some (copperInner "In6")
  | "g7" => some (copperInner "In7")
  | "g8" => some (copperInner "In8")
  | "gko" | "gm1" | "dim" => some outline
  | "gto" | "gbo" | "gts" | "gbs" | "gtp" | "gbp" | "plc" | "pls" | "stc" | "sts" => some other
  | _ => none

/-- The number of an inner layer that stands between `in` and the first occurrence of
a separator. -/
def innerNumber? (separator : String) (name : List Char) : Option Nat := do
  let before ← Text.beforeFirst? separator.toList name
  Decimal.readWord32? (← Text.behindLast? ['i', 'n'] before)

/-- The kind that the words of a name give. The first rule that applies decides. -/
def ofWords (name : List Char) : LayerKind :=
  let has (pattern : String) : Bool := Text.contains pattern.toList name
  if has "f_cu" || has "f.cu" || has "front_cu" then copperTop
  else if has "b_cu" || has "b.cu" || has "back_cu" then copperBottom
  else match innerNumber? "_cu" name <|> innerNumber? ".cu" name with
    | some n => inner n
    | none =>
      if has "edge_cuts" || has "edge.cuts" || has "boardoutline" then outline
      else if has "copper" && has "top" then copperTop
      else if has "copper" && has "bottom" then copperBottom
      else if has "outline" || has "profile" then outline
      else other

/-- The extension of a name, behind its last point. -/
def extension? (name : List Char) : Option String :=
  if name.contains '.' then some (String.ofList (Text.lastPart '.' name)) else none

/-- The kind that a file name gives. Letter case and directories do not count. -/
def ofFileName (path : String) : LayerKind :=
  let name := (baseName path.toList).map lower
  match extension? name >>= ofExtension? with
  | some kind => kind
  | none => ofWords name

end BoardMill.LayerKind
