import BoardMill.Layer.Identification
import BoardMill.Text.Slice

/-! # Identifying layers by slices

The number of an inner layer is cut out of a file name: behind the letter of an extension, or in
front of a separator and behind the letters `in`.
-/

namespace BoardMill.LayerKind

open Slicing

variable {ε : Type}

/-- The extensions of inner copper. -/
def innerExtensions : List String := ["g1", "g2", "g3", "g4", "g5", "g6", "g7", "g8"]

/-- The kind that the extension of a name gives, its number cut off the letter. -/
def ofExtensionSliced? (extension : String) : Slicing ε (Option LayerKind) := do
  if innerExtensions.contains extension then
    return some (copperInner ("In" ++ String.ofList (← behind 1 extension.toList)))
  return ofExtension? extension

/-- The number of an inner layer that stands between `in` and the first occurrence of
a separator. -/
def innerNumberSliced? (separator : String) (name : List Char) : Slicing ε (Option Nat) := do
  let some position := findFirst? separator.toList name | return none
  let front ← before position name
  let some position := findLast? ['i', 'n'] front | return none
  return Decimal.readWord32? (← behind (position + 2) front)

/-- The number of an inner layer with one of the separators. -/
def innerNumbersSliced? (name : List Char) : Slicing ε (Option Nat) := do
  match ← innerNumberSliced? "_cu" name with
  | some n => return some n
  | none => innerNumberSliced? ".cu" name

/-- The kind that the words of a name give. The first rule that applies decides. -/
def ofWordsSliced (name : List Char) : Slicing ε LayerKind := do
  let has (pattern : String) : Bool := Text.contains pattern.toList name
  if has "f_cu" || has "f.cu" || has "front_cu" then return copperTop
  else if has "b_cu" || has "b.cu" || has "back_cu" then return copperBottom
  else match ← innerNumbersSliced? name with
    | some n => return inner n
    | none =>
      if has "edge_cuts" || has "edge.cuts" || has "boardoutline" then return outline
      else if has "copper" && has "top" then return copperTop
      else if has "copper" && has "bottom" then return copperBottom
      else if has "outline" || has "profile" then return outline
      else return other

/-- The kind that a name in small letters gives. -/
def ofLoweredSliced (name : List Char) : Slicing ε LayerKind := do
  let found ← match extension? name with
    | some extension => ofExtensionSliced? extension
    | none => pure none
  match found with
  | some kind => return kind
  | none => ofWordsSliced name

/-- The kind that a file name gives. Letter case and directories do not count. -/
def ofFileNameSliced (path : String) : Slicing ε LayerKind :=
  ofLoweredSliced ((baseName path.toList).map lower)

end BoardMill.LayerKind
