import BoardMill.Coordinate.Sliced
import BoardMill.Drill.Reading

/-! # Reading drill programs by slices

A tool definition is taken apart at positions: behind the number, behind the letter of the shape,
behind the size. Comments and changes of tools need no cuts.
-/

namespace BoardMill.Drill

open Slicing

variable {α ε : Type} [Scalar α]

/-- The tool that a line defines: a number, the letter of its shape, its size, and
possibly more parameters, each with a letter in front. -/
def definitionSliced? (line : List Char) : Slicing ε (Option (Nat × Tool α)) := do
  let 'T' :: text := line | return none
  let some stop := find? (!Decimal.isDigit ·) text | return none
  let some number := Decimal.readWord32? (← before stop text) | return none
  let shape :: _ ← behind stop text | return none
  if !isCapital shape then return none
  let after ← behind (stop + 1) text
  let stop := (find? (!isSizeChar ·) after).getD (byteLength after)
  if stop < byteLength after then
    if !(← behind stop after).head?.any isCapital then return none
  let some size := Decimal.readPlain? (← before stop after) | return none
  return some (number, { shape, size })

/-- A coordinate in the units of the file, its digits aligned to the right. -/
def coordinateSliced? (digits : DigitCount) (text : List Char) : Slicing ε (Option α) :=
  digits.readSliced? (Decimal.padLeft digits.total) text

/-- The hole that a line asks for. -/
def holeSliced? (digits : DigitCount) (line : List Char) : Slicing ε (Option (Step α)) := do
  let 'X' :: text := line | return none
  let some (x, y) := Decimal.splitAtFirst? 'Y' text | return none
  let some x ← coordinateSliced? digits x | return none
  let some y ← coordinateSliced? digits y | return none
  return some (.drill ⟨x, y⟩)

namespace Reading

/-- Carries out a line on tools. -/
def toolLineSliced (r : Reading α) (line : List Char) : Slicing Defect (Reading α) := do
  match ← definitionSliced? line with
  | some (number, tool) => return { r with tools := r.tools.insert number tool }
  | none =>
    match change? line with
    | some step => return { r with steps := r.steps.push step }
    | none => refuse .toolDirective

/-- Carries out a line for a hole. -/
def holeLineSliced (r : Reading α) (line : List Char) : Slicing Defect (Reading α) := do
  match ← holeSliced? r.digits line with
  | some step => return { r with steps := r.steps.push step }
  | none => refuse .holeDirective

/-- Carries out a directive. -/
def lineSliced (r : Reading α) (text : List Char) : Slicing Defect (Reading α) :=
  let word := String.ofList text
  if idleDirectives.contains word then pure r
  else if word = "M30" ∨ word = "M00" then pure { r with ended := true }
  else if word = "M71" then pure { r with units := .millimeters }
  else if word = "M72" then pure { r with units := .inches }
  else if "INCH".toList.isPrefixOf text || "METRIC".toList.isPrefixOf text then do
    let (units, digits) ← sure (unitLine? r.digits text)
    return { r with units, digits }
  else match text with
    | 'T' :: _ => r.toolLineSliced text
    | 'X' :: _ => r.holeLineSliced text
    | _ => refuse .unknownDirective

end Reading

namespace Program

/-- Reads on by slices from a line number, until the end marker. A line whose bytes are
not text is given as `none`. -/
def readSlicedFrom (number : Nat) :
    Reading α → List (Option (List Char)) → Slicing Fault (Program α)
  | r, [] => pure r.program
  | r, none :: _ =>
    if r.ended then pure r.program
    else refuse (.ofRead number true notText)
  | r, some text :: rest =>
    if r.ended then pure r.program
    else do
      let text := directive text
      let r ← restate
        (fun defect => Fault.malformed number (defect.message ++ ": " ++ String.ofList text))
        (r.lineSliced text)
      readSlicedFrom (number + 1) r rest

/-- The program of a text, read by slices. -/
def ofTextSliced? (text : List Char) : Slicing Fault (Program α) :=
  readSlicedFrom 1 .start ((Text.lines text).map some)

/-- The program of a file, read by slices. -/
def ofBytesSliced? (bytes : List UInt8) : Slicing Fault (Program α) :=
  readSlicedFrom 1 .start (byteLines bytes)

end Program

end BoardMill.Drill
