import BoardMill.Gerber.Defect
import BoardMill.Gerber.Document

/-! # Words

A word is a stop code, or a preparation code, coordinates and an operation code in
any combination. `Word.read?` finds these parts; what they mean depends on what was
said before and is the business of the reader of documents.
-/

namespace BoardMill.Gerber

/-- What a preparation code does. -/
inductive Preparation where
  | mode (mode : Interpolation)
  | regionStart
  | regionEnd
  | units (units : Units)
  /-- The code has no effect on the drawing. -/
  | nothing
  deriving DecidableEq, Repr

/-- The fields of a word. Coordinates are kept as they are written. -/
structure Fields where
  x : Option (List Char)
  y : Option (List Char)
  i : Option (List Char)
  j : Option (List Char)
  d : Option Nat
  deriving DecidableEq, Repr

/-- The parts of a word. -/
inductive Word where
  /-- The end of the document. -/
  | finish
  /-- A stop for the operator, of no effect here. -/
  | pause
  | drawing (preparation : Option Preparation) (fields : Option Fields)
  deriving DecidableEq, Repr

variable {α : Type}

namespace Fields

/-- No field at all. -/
def none : Fields := ⟨.none, .none, .none, .none, .none⟩

/-- Whether any coordinate or offset is given. -/
def hasCoordinates (f : Fields) : Bool := f.x.isSome || f.y.isSome || f.i.isSome || f.j.isSome

/-- Fills a field that must still be open. -/
def fill? (open? : Option β) (value : β) : Option (Option β) :=
  match open? with
  | some _ => .none
  | .none => some (some value)

/-- Adds a field, which no word has twice. -/
def add? (f : Fields) (key : Char) (value : List Char) : Option Fields :=
  match key with
  | 'X' => (fill? f.x value).map fun x => { f with x }
  | 'Y' => (fill? f.y value).map fun y => { f with y }
  | 'I' => (fill? f.i value).map fun i => { f with i }
  | 'J' => (fill? f.j value).map fun j => { f with j }
  | 'D' => do
    let code ← Decimal.readWord32? value
    let d ← fill? f.d code
    return { f with d }
  | _ => .none

/-- The characters of a number behind its sign. -/
def isNumberChar (c : Char) : Bool := Decimal.isDigit c || c == '.'

/-- How long the sign of a number is. -/
def signLength : List Char → Nat
  | '+' :: _ => 1
  | '-' :: _ => 1
  | _ => 0

/-- Splits the value of a field off: an optional sign, then digits and points. -/
def splitValue (text : List Char) : List Char × List Char :=
  let sign := signLength text
  let unsigned := text.drop sign
  (text.take sign ++ unsigned.takeWhile isNumberChar, unsigned.dropWhile isNumberChar)

theorem length_splitValue_le (text : List Char) :
    (splitValue text).2.length ≤ text.length := by
  have h := (List.dropWhile_sublist isNumberChar (l := text.drop (signLength text))).length_le
  simp only [splitValue]
  simp only [List.length_drop] at h
  omega

/-- Reads the fields of a text behind those already read. Every field has a value. -/
def read? (f : Fields) : List Char → Option Fields
  | [] => some f
  | key :: rest =>
    let split := splitValue rest
    if split.1.isEmpty then .none
    else match f.add? key split.1 with
      | some f => read? f split.2
      | .none => .none
termination_by text => text.length
decreasing_by exact Nat.lt_succ_of_le (length_splitValue_le rest)

end Fields

namespace Preparation

/-- What the digits of a preparation code stand for. -/
def read? (digits : List Char) : Except (Defect α) Preparation :=
  let code := 'G' :: digits
  match Decimal.readWord32? digits with
  | none => throw (.badPreparation code)
  | some 1 => pure (.mode .linear)
  | some 2 => pure (.mode .clockwise)
  | some 3 => pure (.mode .counterclockwise)
  | some 36 => pure .regionStart
  | some 37 => pure .regionEnd
  | some 70 => pure (.units .inches)
  | some 71 => pure (.units .millimeters)
  -- Selection, quadrant modes and absolute coordinates go without saying.
  | some 54 | some 55 | some 74 | some 75 | some 90 => pure .nothing
  | some 91 => throw .incrementalCoordinates
  | some _ => throw (.unknownPreparation code)

end Preparation

namespace Word

/-- The fields of a text, which is part of a word. -/
def fields? (word text : List Char) : Except (Defect α) Fields :=
  match Fields.none.read? text with
  | some fields => pure fields
  | none => throw (.malformedWord word)

/-- Reads a word. -/
def read? (word : List Char) : Except (Defect α) Word := do
  if word.any (fun c => 0x80 ≤ c.toNat) then throw (.notAscii word)
  match word with
  | 'M' :: rest =>
    match Decimal.readWord32? rest with
    | some 0 | some 2 => return .finish
    | some 1 => return .pause
    | _ => throw (.unknownStop word)
  | 'G' :: rest =>
    let preparation ← Preparation.read? (rest.takeWhile Decimal.isDigit)
    let rest := rest.dropWhile Decimal.isDigit
    if rest.isEmpty then return .drawing (some preparation) none
    return .drawing (some preparation) (some (← fields? word rest))
  | _ => return .drawing none (some (← fields? word word))

end Word

end BoardMill.Gerber
