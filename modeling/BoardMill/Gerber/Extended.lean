import BoardMill.Gerber.Defect
import BoardMill.Gerber.Document
import BoardMill.Text.Alphabetic

/-! # Extended commands

An extended command starts with two letters that name it. Most of them become a
block of the document; an aperture definition goes into the table, and old
commands for the whole image are accepted only if they leave it as it is.
-/

namespace BoardMill.Gerber

variable {α : Type} [Scalar α]

/-- What an extended command says. -/
inductive Extended (α : Type) where
  | block (block : Block α)
  | define (aperture : Aperture α)
  /-- The command has no effect on the drawing. -/
  | nothing
  deriving Repr

namespace FormatSpec

/-- The letters before the digits: the last of `L` and `T` counts, and `A` is the
only notation. -/
def modifiers? (zeros : ZeroOmission) : List Char → Except (Defect α) (ZeroOmission × List Char)
  | 'L' :: rest => modifiers? .leading rest
  | 'T' :: rest => modifiers? .trailing rest
  | 'A' :: rest => modifiers? zeros rest
  | 'I' :: _ => throw .incrementalFormat
  | rest => pure (zeros, rest)

/-- The two digits of an axis. -/
def digitCount? (text : List Char) : Except (Defect α) DigitCount :=
  match text with
  | [a, b] =>
    if Decimal.isDigit a && Decimal.isDigit b then
      pure ⟨UInt8.ofNat (Decimal.digitValue a), UInt8.ofNat (Decimal.digitValue b)⟩
    else throw (.formatDigits text)
  | _ => throw (.formatDigits text)

/-- The texts behind `X` and behind `Y`. -/
def axisTexts? (command text : List Char) : Except (Defect α) (List Char × List Char) :=
  match Decimal.splitAtFirst? 'X' text with
  | none => throw .formatWithoutX
  | some (before, after) =>
    if before.contains 'Y' then throw (.formatOrder command)
    else match Decimal.splitAtFirst? 'Y' after with
      | none => throw .formatWithoutY
      | some parts => pure parts

/-- Reads the format that a command gives, from behind its name on. -/
def read? (command text : List Char) : Except (Defect α) CoordinateFormat := do
  let (zeros, rest) ← modifiers? .leading text
  let (xText, yText) ← axisTexts? command rest
  let x ← digitCount? xText
  let y ← digitCount? yText
  return { zeros, x, y }

end FormatSpec

namespace Definition

/-- The parameters of an aperture, separated by the letter `X`. -/
def parameters? (text : List Char) : Except (Defect α) (List α) :=
  if text.isEmpty then pure []
  else (text.splitOn 'X').mapM fun p =>
    match Decimal.readPlain? p with
    | some value => pure value
    | none => throw (.badParameter p)

/-- The shape that a template and its parameters give, and the parameters left for
the hole. -/
def shape? (template : List Char) (params : List α) : Except (Defect α) (Shape α × List α) :=
  match template with
  | ['C'] => match params with
    | diameter :: rest => pure (.circle diameter, rest)
    | _ => throw .circleWithoutDiameter
  | ['R'] => match params with
    | xSize :: ySize :: rest => pure (.rectangle xSize ySize, rest)
    | _ => throw (.missingSizes template)
  | ['O'] => match params with
    | xSize :: ySize :: rest => pure (.obround xSize ySize, rest)
    | _ => throw (.missingSizes template)
  | ['P'] => match params with
    | diameter :: count :: rest =>
      if Scalar.ceil count == count then
        pure (.polygon diameter (Nat.min (Scalar.toNat count) Decimal.maxWord32)
          (rest.head?.getD 0.0), rest.tail)
      else throw (.fractionalVertices count)
    | _ => throw .polygonWithoutVertices
  | _ => throw (.macroTemplate template)

/-- The hole that the remaining parameters give. -/
def hole? (command : List Char) : List α → Except (Defect α) (Option (Hole α))
  | [] => pure none
  | [diameter] => pure (some (.circle diameter))
  | [xSize, ySize] => pure (some (.rectangle xSize ySize))
  | _ => throw (.excessParameters command)

/-- The number of an aperture and the text of its template. -/
def number? (text : List Char) : Except (Defect α) (Nat × List Char) := do
  let rest := text.dropWhile Decimal.isDigit
  if rest.isEmpty then throw (.definitionWithoutTemplate text)
  let some number := Decimal.readWord32? (text.takeWhile Decimal.isDigit)
    | throw (.definitionNumber text)
  if number < 10 then throw (.definitionBelowTen number)
  return (number, rest)

/-- Reads the aperture that a command defines, from behind its name on. -/
def read? (command text : List Char) : Except (Defect α) (Aperture α) := do
  let some text := (match text with | 'D' :: rest => some rest | _ => none)
    | throw (.definitionWithoutD command)
  let (number, rest) ← number? text
  let (template, paramText) := (Decimal.splitAtFirst? ',' rest).getD (rest, [])
  let params ← parameters? paramText
  let (shape, holeParams) ← shape? template params
  let hole ← hole? command holeParams
  match Aperture.make number shape hole with
  | .ok aperture => return aperture
  | .error defect => throw (.aperture defect)

end Definition

/-- The attribute of a kind: its name, then its arguments, separated by commas. -/
def attributeBlock (kind : AttributeKind) (text : List Char) : Block α :=
  match (text.splitOn ',').map String.ofList with
  | [] => .attribute kind "" []
  | name :: args => .attribute kind name args

namespace ImageTransform

/-- The plain decimal behind the first occurrence of a letter, up to the next
alphabetic character. -/
def value? (key : Char) (text : List Char) : Option α := do
  let (_, after) ← Decimal.splitAtFirst? key text
  Decimal.readPlain? (after.takeWhile (!Text.isAlphabetic ·))

/-- Whether the values of `A` and `B` are the identity, which they also are when
they cannot be read. -/
def isIdentity (identity : α) (text : List Char) : Bool :=
  (value? 'A' text).getD identity == identity && (value? 'B' text).getD identity == identity

end ImageTransform

/-- An old command for the whole image. -/
def legacy? (command : List Char) (harmless : Bool) : Except (Defect α) (Extended α) :=
  if harmless then pure .nothing else throw (.imageTransform command)

namespace Extended

/-- Reads an extended command. -/
def read? (command : List Char) : Except (Defect α) (Extended α) := do
  match command with
  | 'F' :: 'S' :: rest => return .block (.format (← FormatSpec.read? command rest))
  | 'M' :: 'O' :: rest =>
    match rest with
    | ['M', 'M'] => return .block (.units .millimeters)
    | ['I', 'N'] => return .block (.units .inches)
    | _ => throw (.badUnits command)
  | 'A' :: 'D' :: rest => return .define (← Definition.read? command rest)
  | 'L' :: 'P' :: rest =>
    match rest with
    | ['D'] => return .block (.polarity .dark)
    | ['C'] => return .block (.polarity .clear)
    | _ => throw (.badPolarity command)
  | 'T' :: 'F' :: rest => return .block (attributeBlock .file rest)
  | 'T' :: 'A' :: rest => return .block (attributeBlock .aperture rest)
  | 'T' :: 'O' :: rest => return .block (attributeBlock .object rest)
  | 'T' :: 'D' :: rest => return .block (attributeBlock .delete rest)
  | 'A' :: 'M' :: _ => throw .apertureMacro
  | 'S' :: 'R' :: _ => throw .stepAndRepeat
  | 'I' :: 'P' :: rest => legacy? command (rest == ['P', 'O', 'S'])
  | 'L' :: 'N' :: _ => return .nothing
  | 'I' :: 'N' :: _ => return .nothing
  | 'A' :: 'S' :: rest => legacy? command (rest == ['A', 'X', 'B', 'Y'])
  | 'O' :: 'F' :: rest => legacy? command (ImageTransform.isIdentity (α := α) 0.0 rest)
  | 'M' :: 'I' :: rest => legacy? command (ImageTransform.isIdentity (α := α) 0.0 rest)
  | 'S' :: 'F' :: rest => legacy? command (ImageTransform.isIdentity (α := α) 1.0 rest)
  | _ => throw (.unknownCommand command)

end Extended

end BoardMill.Gerber
