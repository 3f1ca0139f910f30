import BoardMill.Coordinate
import BoardMill.Drill.Program
import BoardMill.Text.Blank
import BoardMill.Text.Lines
import BoardMill.Text.Utf8

/-! # Reading drill programs

A drill file is read line by line until its end marker. Units and digit counts may
change on any line. Digit counts count for the lines that follow, and the units that
are named last for the whole program. Digits are always aligned to the right, whatever
zeros a file says it leaves out.
-/

namespace BoardMill.Drill

/-- Why a line cannot be accepted. -/
inductive Defect where
  | unknownUnit
  | numberFormat (pattern : List Char)
  | unitOption (option : List Char)
  | toolDirective
  | holeDirective
  | unknownDirective
  deriving DecidableEq, Repr

/-- What is wrong, in words. -/
def Defect.message : Defect → String
  | unknownUnit => "unknown unit"
  | numberFormat pattern => "bad number format " ++ String.ofList pattern
  | unitOption option => "unknown unit option " ++ String.ofList option
  | toolDirective => "bad tool directive"
  | holeDirective => "bad hole directive"
  | unknownDirective => "unparsable drill directive"

/-- What was read so far. -/
structure Reading (α : Type) where
  digits : DigitCount
  units : Units
  tools : ToolTable α
  steps : Array (Step α)
  ended : Bool
  deriving Repr

/-- The part of a line before its comment, without blanks around it. -/
def directive (line : List Char) : List Char :=
  Text.trim (((Decimal.splitAtFirst? ';' line).map Prod.fst).getD line)

/-! ## Units -/

/-- The digit counts of a pattern: zeros, a point, and more characters. -/
def patternDigits? (pattern : List Char) : Except Defect DigitCount :=
  match (Decimal.splitAtFirst? '.' pattern).getD (pattern, []) with
  | ([], _) => throw (.numberFormat pattern)
  | (_, []) => throw (.numberFormat pattern)
  | (whole, fraction) => pure ⟨UInt8.ofNat whole.length, UInt8.ofNat fraction.length⟩

/-- The digit counts behind an option of a unit line. Which zeros are left out makes
no difference. -/
def unitOption? (digits : DigitCount) (option : List Char) : Except Defect DigitCount :=
  let option := Text.trim option
  if option = ['T', 'Z'] ∨ option = ['L', 'Z'] then pure digits
  else if option.contains '.' && option.all (fun c => c == '0' || c == '.') then
    patternDigits? option
  else throw (.unitOption option)

/-- The units that the first part of a unit line names. -/
def unitName? (name : List Char) : Except Defect Units :=
  if name = ['I', 'N', 'C', 'H'] then pure .inches
  else if name = ['M', 'E', 'T', 'R', 'I', 'C'] then pure .millimeters
  else throw .unknownUnit

/-- The units and digit counts behind a unit line. Inches come with counts of their
own; millimetres keep those in force. -/
def unitLine? (digits : DigitCount) (line : List Char) : Except Defect (Units × DigitCount) :=
  match line.splitOn ',' with
  | [] => throw .unknownUnit
  | name :: options => do
    let units ← unitName? name
    let start := match units with
      | .inches => ⟨2, 4⟩
      | .millimeters => digits
    return (units, ← options.foldlM unitOption? start)

/-! ## Tools and holes -/

variable {α : Type} [Scalar α]

/-- The characters of a tool size. -/
def isSizeChar (c : Char) : Bool := Decimal.isDigit c || c == '.' || c == '-'

/-- A capital letter of the Latin alphabet. -/
def isCapital (c : Char) : Bool := 'A' ≤ c && c ≤ 'Z'

/-- The tool that a line defines: a number, the letter of its shape, its size, and
possibly more parameters, each with a letter in front. -/
def definition? (line : List Char) : Option (Nat × Tool α) := do
  let 'T' :: text := line | none
  let number := text.takeWhile Decimal.isDigit
  let shape :: text := text.dropWhile Decimal.isDigit | none
  let number ← Decimal.readWord32? number
  if !isCapital shape then none
  let more := text.dropWhile isSizeChar
  if !(more.head?.all isCapital) then none
  let size ← Decimal.readPlain? (text.takeWhile isSizeChar)
  return (number, { shape, size })

/-- The change of tools that a line asks for. The number zero puts the tool away. -/
def change? (line : List Char) : Option (Step α) := do
  let 'T' :: digits := line | none
  if !digits.all Decimal.isDigit then none
  match ← Decimal.readWord32? digits with
  | 0 => return .unload
  | number => return .change number

/-- A coordinate in the units of the file, its digits aligned to the right. -/
def coordinate? (digits : DigitCount) (text : List Char) : Option α :=
  digits.readFilled? (Decimal.padLeft digits.total) text

/-- The hole that a line asks for. -/
def hole? (digits : DigitCount) (line : List Char) : Option (Step α) := do
  let 'X' :: text := line | none
  let (x, y) ← Decimal.splitAtFirst? 'Y' text
  return .drill ⟨← coordinate? digits x, ← coordinate? digits y⟩

/-! ## Lines -/

/-- Directives without any effect. -/
def idleDirectives : List String :=
  ["", "%", "M48", "M95", "G05", "G90", "FMAT,2", "ICI,OFF"]

namespace Reading

/-- Before the first line. -/
def start : Reading α where
  digits := ⟨3, 3⟩
  units := .millimeters
  tools := .empty
  steps := #[]
  ended := false

/-- The program that was read. -/
def program (r : Reading α) : Program α := ⟨r.units, r.tools, r.steps.toList⟩

/-- Carries out a line on tools. -/
def toolLine (r : Reading α) (line : List Char) : Except Defect (Reading α) :=
  match definition? line with
  | some (number, tool) => pure { r with tools := r.tools.insert number tool }
  | none =>
    match change? line with
    | some step => pure { r with steps := r.steps.push step }
    | none => throw .toolDirective

/-- Carries out a line for a hole. -/
def holeLine (r : Reading α) (line : List Char) : Except Defect (Reading α) :=
  match hole? r.digits line with
  | some step => pure { r with steps := r.steps.push step }
  | none => throw .holeDirective

/-- Carries out a directive. -/
def line (r : Reading α) (text : List Char) : Except Defect (Reading α) :=
  let word := String.ofList text
  if idleDirectives.contains word then pure r
  else if word = "M30" ∨ word = "M00" then pure { r with ended := true }
  else if word = "M71" then pure { r with units := .millimeters }
  else if word = "M72" then pure { r with units := .inches }
  else if "INCH".toList.isPrefixOf text || "METRIC".toList.isPrefixOf text then do
    let (units, digits) ← unitLine? r.digits text
    return { r with units, digits }
  else match text with
    | 'T' :: _ => r.toolLine text
    | 'X' :: _ => r.holeLine text
    | _ => throw .unknownDirective

end Reading

/-- What is said of bytes that are not text. -/
def notText : String := "stream did not contain valid UTF-8"

namespace Program

/-- Reads on from a line number, until the end marker. A line whose bytes are not
text is given as `none`. -/
def readFrom (number : Nat) : Reading α → List (Option (List Char)) → Except Fault (Program α)
  | r, [] => pure r.program
  | r, none :: _ =>
    if r.ended then pure r.program
    else throw (.ofRead number true notText)
  | r, some text :: rest =>
    if r.ended then pure r.program
    else
      let text := directive text
      match r.line text with
      | .ok r => readFrom (number + 1) r rest
      | .error defect =>
        throw (.malformed number (defect.message ++ ": " ++ String.ofList text))

/-- The program of a text. -/
def ofText? (text : List Char) : Except Fault (Program α) :=
  readFrom 1 .start ((Text.lines text).map some)

/-- The lines of a file, as far as their bytes are text. -/
def byteLines (bytes : List UInt8) : List (Option (List Char)) :=
  (Text.terminated 0x0A bytes).map fun (line, ended) =>
    (Utf8.decode? line).map fun text => if ended then Text.withoutReturn text else text

/-- The program of a file. Bytes behind the end marker are not looked at. -/
def ofBytes? (bytes : List UInt8) : Except Fault (Program α) :=
  readFrom 1 .start (byteLines bytes)

end Program

end BoardMill.Drill
