import BoardMill.Coordinate.Sliced
import BoardMill.Gerber.Reading

/-! # Reading Gerber documents by slices

Commands are taken apart at positions: behind their names and signs, behind a letter, where
something was found. The fields of a word are found among its bytes. That every cut is in its place
rests on what was looked at before.
-/

namespace BoardMill.Gerber

namespace Sliced

open Slicing

/-! ## Tokens -/

section Tokens

variable {ε : Type}

/-- Comments start with `G04`, or with `G4` and no further digit. -/
def isComment (text : List Char) : Slicing ε Bool := do
  if ['G', '0', '4'].isPrefixOf text then return true
  if ['G', '4'].isPrefixOf text then return !((← behind 2 text).head?.any Decimal.isDigit)
  return false

/-- The token of a piece of text, last character first. -/
def ofPiece (line : Nat) (kind : TokenKind) (piece : List Char) : Slicing ε (List Token) := do
  let text := Text.trim piece.reverse
  if text.isEmpty then return []
  if ← isComment text then return []
  return [{ line, kind, text }]

/-- Reads tokens from a place and a line on. -/
def scan : Token.Place → Nat → List Char → Slicing ε (List Token)
  | .between, _, [] => pure []
  | .inside kind start piece, _, [] => ofPiece start kind piece
  | .between, line, c :: rest =>
    if c = '%' then scan (.inside .extended line []) line rest
    else if c = '\n' then scan .between (line + 1) rest
    else if c = '\r' ∨ c = ' ' ∨ c = '\t' ∨ c = '*' then scan .between line rest
    else scan (.inside .word line [c]) line rest
  | .inside .extended start piece, line, c :: rest =>
    if c = '%' then do return (← ofPiece start .extended piece) ++ (← scan .between line rest)
    else if c = '*' then do
      return (← ofPiece start .extended piece) ++ (← scan (.inside .extended line []) line rest)
    else if c = '\n' then
      let start := if (Text.trim piece.reverse).isEmpty then line + 1 else start
      scan (.inside .extended start piece) (line + 1) rest
    else if c = '\r' then scan (.inside .extended start piece) line rest
    else scan (.inside .extended start (c :: piece)) line rest
  | .inside .word start piece, line, c :: rest =>
    if c = '*' then do return (← ofPiece start .word piece) ++ (← scan .between line rest)
    else if c = '%' then do
      return (← ofPiece start .word piece) ++ (← scan (.inside .extended line []) line rest)
    else if c = '\n' then scan (.inside .word start piece) (line + 1) rest
    else if c = '\r' then scan (.inside .word start piece) line rest
    else scan (.inside .word start (c :: piece)) line rest

/-- All tokens of a text, in order. -/
def tokens (text : List Char) : Slicing ε (List Token) := scan .between 1 text

end Tokens

variable {α : Type} [Scalar α]

/-! ## Extended commands -/

/-- What a letter before the digits of a format makes of the zeros to leave out. -/
def modifier? (zeros : ZeroOmission) : Char → Option ZeroOmission
  | 'L' => some .leading
  | 'T' => some .trailing
  | 'A' => some zeros
  | _ => none

/-- The letters before the digits of a format, cut off one by one. -/
def modifiers? (zeros : ZeroOmission) (text : List Char) :
    Slicing (Defect α) (ZeroOmission × List Char) :=
  if text.head? = some 'I' then refuse .incrementalFormat
  else match text.head?.bind (modifier? zeros) with
    | none => pure (zeros, text)
    | some zeros =>
      match h : behind 1 text with
      | .ok rest =>
        have : rest.length < text.length := length_behind_lt h
        modifiers? zeros rest
      | .error halt => throw halt
termination_by text.length

/-- Whether a byte is one of the ten digits. -/
def isDigitByte (b : UInt8) : Bool := 0x30 ≤ b && b ≤ 0x39

/-- The two digits of an axis, taken from its bytes. -/
def digitCount? (text : List Char) : Slicing (Defect α) DigitCount := do
  let bytes := Utf8.encode text
  if bytes.length != 2 || !bytes.all isDigitByte then refuse (.formatDigits text)
  else return ⟨(← item bytes 0) - 0x30, (← item bytes 1) - 0x30⟩

/-- The texts behind `X` and behind `Y`. -/
def axisTexts? (command text : List Char) : Slicing (Defect α) (List Char × List Char) := do
  let some x := find? (· == 'X') text | refuse .formatWithoutX
  let some y := find? (· == 'Y') text | refuse .formatWithoutY
  if y < x then refuse (.formatOrder command)
  else return (← between (x + 1) y text, ← behind (y + 1) text)

/-- Reads the format that a command gives. -/
def format? (command : List Char) : Slicing (Defect α) CoordinateFormat := do
  let (zeros, rest) ← modifiers? .leading (← behind 2 command)
  let (xText, yText) ← axisTexts? command rest
  let x ← digitCount? xText
  let y ← digitCount? yText
  return { zeros, x, y }

/-- The shape that a template and its parameters give, and the parameters left for
the hole. -/
def shape? (template : List Char) (params : List α) : Slicing (Defect α) (Shape α × List α) := do
  if template = ['C'] then
    let some diameter := params.head? | refuse .circleWithoutDiameter
    return (.circle diameter, ← items params 1)
  else if template = ['R'] ∨ template = ['O'] then
    if params.length < 2 then refuse (.missingSizes template)
    else
      let xSize ← item params 0
      let ySize ← item params 1
      let shape := if template = ['R'] then .rectangle xSize ySize else .obround xSize ySize
      return (shape, ← items params 2)
  else if template = ['P'] then
    if params.length < 2 then refuse .polygonWithoutVertices
    else
      let count ← item params 1
      if Scalar.ceil count == count then
        let vertices := Nat.min (Scalar.toNat count) Decimal.maxWord32
        return (.polygon (← item params 0) vertices (params[2]?.getD 0.0), params.drop 3)
      else refuse (.fractionalVertices count)
  else refuse (.macroTemplate template)

/-- The number of an aperture and the text of its template. -/
def number? (text : List Char) : Slicing (Defect α) (Nat × List Char) := do
  let some stop := find? (!Decimal.isDigit ·) text | refuse (.definitionWithoutTemplate text)
  let some number := Decimal.readWord32? (← before stop text) | refuse (.definitionNumber text)
  if number < 10 then refuse (.definitionBelowTen number)
  else return (number, ← behind stop text)

/-- Reads the aperture that a command defines. -/
def definition? (command : List Char) : Slicing (Defect α) (Aperture α) := do
  let 'D' :: text := ← behind 2 command | refuse (.definitionWithoutD command)
  let (number, rest) ← number? text
  let (template, paramText) := (Decimal.splitAtFirst? ',' rest).getD (rest, [])
  let params ← sure (Definition.parameters? paramText)
  let (shape, holeParams) ← shape? template params
  let hole ← sure (Definition.hole? command holeParams)
  match Aperture.make number shape hole with
  | .ok aperture => return aperture
  | .error defect => refuse (.aperture defect)

/-- The attribute that a command gives. -/
def attributeOf (command : List Char) : Slicing (Defect α) (Block α) := do
  let kind : AttributeKind := match ← before 2 command with
    | ['T', 'F'] => .file
    | ['T', 'A'] => .aperture
    | ['T', 'O'] => .object
    | _ => .delete
  return attributeBlock kind (← behind 2 command)

/-- The plain decimal behind the first occurrence of a letter, up to the next
alphabetic character. -/
def value? (key : Char) (text : List Char) : Slicing (Defect α) (Option α) := do
  let some position := find? (· == key) text | return none
  let after ← behind (position + 1) text
  let stop := (find? Text.isAlphabetic after).getD (byteLength after)
  return Decimal.readPlain? (← before stop after)

/-- Whether the values of `A` and `B` are the identity. -/
def isIdentity (identity : α) (text : List Char) : Slicing (Defect α) Bool := do
  if ((← value? 'A' text).getD identity) == identity then
    return (← value? 'B' text).getD identity == identity
  else return false

/-- Whether an old command of a name leaves the whole image as it is. -/
def isHarmless (name text : List Char) : Slicing (Defect α) Bool :=
  match name with
  | ['I', 'P'] => pure (text == ['P', 'O', 'S'])
  | ['L', 'N'] | ['I', 'N'] => pure true
  | ['A', 'S'] => pure (text == ['A', 'X', 'B', 'Y'])
  | ['O', 'F'] | ['M', 'I'] => isIdentity 0.0 text
  | ['S', 'F'] => isIdentity 1.0 text
  | _ => pure false

/-- Reads an old command for the whole image. -/
def imageTransform? (command : List Char) : Slicing (Defect α) (Extended α) := do
  let text ← behind 2 command
  sure (legacy? command (← isHarmless (← before 2 command) text))

/-- The units that a command sets. -/
def units? (command : List Char) : Slicing (Defect α) (Extended α) :=
  if command = ['M', 'O', 'M', 'M'] then pure (.block (.units .millimeters))
  else if command = ['M', 'O', 'I', 'N'] then pure (.block (.units .inches))
  else refuse (.badUnits command)

/-- The polarity that a command sets. -/
def polarity? (command : List Char) : Slicing (Defect α) (Extended α) :=
  if command = ['L', 'P', 'D'] then pure (.block (.polarity .dark))
  else if command = ['L', 'P', 'C'] then pure (.block (.polarity .clear))
  else refuse (.badPolarity command)

/-- The name of a command: its first two bytes, or all of it. -/
def name (command : List Char) : List Char := ((splitAt? 2 command).map Prod.fst).getD command

/-- Reads an extended command. -/
def extended? (command : List Char) : Slicing (Defect α) (Extended α) :=
  match name command with
  | ['F', 'S'] => do return .block (.format (← format? command))
  | ['M', 'O'] => units? command
  | ['A', 'D'] => do return .define (← definition? command)
  | ['L', 'P'] => polarity? command
  | ['T', 'F'] | ['T', 'A'] | ['T', 'O'] | ['T', 'D'] => do return .block (← attributeOf command)
  | ['A', 'M'] => refuse .apertureMacro
  | ['S', 'R'] => refuse .stepAndRepeat
  | ['I', 'P'] | ['L', 'N'] | ['I', 'N'] | ['O', 'F'] | ['A', 'S'] | ['M', 'I'] | ['S', 'F'] =>
    imageTransform? command
  | _ => refuse (.unknownCommand command)

/-! ## Words -/

/-- Whether a byte is a character of a number behind its sign. -/
def isNumberByte (b : UInt8) : Bool := isDigitByte b || b == 0x2E

/-- How many bytes the sign at a position takes. -/
def signLength (bytes : List UInt8) (position : Nat) : Slicing (Defect α) Nat := do
  if position < bytes.length then
    let b ← item bytes position
    return if b == 0x2B || b == 0x2D then 1 else 0
  else return 0

/-- How many bytes of a number there are from a position on. -/
def numberLength (bytes : List UInt8) (position : Nat) : Slicing (Defect α) Nat :=
  if position < bytes.length then do
    if isNumberByte (← item bytes position) then
      return 1 + (← numberLength bytes (position + 1))
    else return 0
  else pure 0
termination_by bytes.length - position

/-- Reads the fields of a text from a position of its bytes on. -/
def readFields? (text : List Char) (bytes : List UInt8) (f : Fields) (position : Nat) :
    Slicing (Defect α) (Option Fields) :=
  if position < bytes.length then do
    let key ← item bytes position
    let start := position + 1
    let sign ← signLength bytes start
    let stop := start + sign + (← numberLength bytes (start + sign))
    let value ← between start stop text
    if value.isEmpty then return none
    else match f.add? (Char.ofNat key.toNat) value with
      | some f => readFields? text bytes f stop
      | none => return none
  else pure (some f)
termination_by bytes.length - position

/-- The fields of a text, which is part of a word. -/
def fields? (word text : List Char) : Slicing (Defect α) Fields := do
  let some fields ← readFields? text (Utf8.encode text) .none 0 | refuse (.malformedWord word)
  return fields

/-- What a preparation code stands for. -/
def preparation? (code : List Char) : Slicing (Defect α) Preparation := do
  sure (Preparation.read? (← behind 1 code))

/-- Reads a word. -/
def word? (word : List Char) : Slicing (Defect α) Word := do
  if word.any (fun c => 0x80 ≤ c.toNat) then refuse (.notAscii word)
  else if word.head? = some 'M' then
    match Decimal.readWord32? (← behind 1 word) with
    | some 0 | some 2 => return .finish
    | some 1 => return .pause
    | _ => refuse (.unknownStop word)
  else if word.head? = some 'G' then
    let stop := ((find? (!Decimal.isDigit ·) (← behind 1 word)).map (· + 1)).getD (byteLength word)
    let preparation ← preparation? (← before stop word)
    let rest ← behind stop word
    if rest.isEmpty then return .drawing (some preparation) none
    else return .drawing (some preparation) (some (← fields? word rest))
  else return .drawing none (some (← fields? word word))

/-! ## Documents -/

/-- The coordinate of a field along an axis, if the field is there. -/
def coordinate? (format : CoordinateFormat) (axis : Axis) (word : List Char) (missing : α) :
    Option (List Char) → Slicing (Defect α) α
  | none => pure missing
  | some text => do
    match ← format.decodeSliced? axis text with
    | some value => return value
    | none => refuse (.badCoordinate text word)

/-- Carries out an operation. -/
def operate (r : Reading α) (line : Nat) (word : List Char) (fields : Fields)
    (operation : Operation) : Slicing (Defect α) (Reading α) := do
  let some format := r.format | refuse .coordinatesBeforeFormat
  let x ← coordinate? format .x word r.cursor.x fields.x
  let y ← coordinate? format .y word r.cursor.y fields.y
  let i ← coordinate? format .x word 0.0 fields.i
  let j ← coordinate? format .y word 0.0 fields.j
  let block := r.drawing operation ⟨x, y⟩ ⟨i, j⟩
  return { r.push line block with cursor := ⟨x, y⟩, operation := some operation }

/-- Carries out the fields of a word. -/
def fields (r : Reading α) (line : Nat) (word : List Char) (f : Fields) :
    Slicing (Defect α) (Reading α) :=
  match f.d with
  | some 1 => operate r line word f .interpolate
  | some 2 => operate r line word f .move
  | some 3 => operate r line word f .flash
  | some code =>
    if code < 10 then refuse (.unknownOperation code)
    else if f.hasCoordinates then refuse (.coordinatesOnSelect word)
    else pure (r.push line (.select code))
  | none =>
    if f.hasCoordinates then
      match r.operation with
      | some operation => operate r line word f operation
      | none => refuse (.coordinatesWithoutOperation word)
    else refuse (.emptyWord word)

/-- Carries out a word. -/
def word (r : Reading α) (line : Nat) (text : List Char) : Slicing (Defect α) (Reading α) := do
  match ← word? text with
  | .finish => return { r with ended := true }
  | .pause => return r
  | .drawing preparation found =>
    let r := match preparation with
      | some p => r.prepare line p
      | none => r
    match found with
    | some f => fields r line text f
    | none => return r

/-- Carries out an extended command. -/
def extended (r : Reading α) (line : Nat) (text : List Char) :
    Slicing (Defect α) (Reading α) := do
  match ← extended? text with
  | .block block =>
    let r := r.push line block
    match block with
    | .format format => return { r with format := some format }
    | _ => return r
  | .define aperture =>
    match r.apertures.define aperture with
    | .ok apertures => return { r with apertures }
    | .error defect => refuse (.aperture defect)
  | .nothing => return r

/-- Carries out a token. -/
def token (r : Reading α) (t : Token) : Slicing (Defect α) (Reading α) :=
  match t.kind with
  | .extended => extended r t.line t.text
  | .word => word r t.line t.text

end Sliced

namespace Document

open Slicing

variable {α : Type} [Numeral α]

/-- Reads on by slices from what was read, until the end marker. -/
def readSlicedFrom (lastLine : Nat) :
    Reading α → List Token → Slicing Fault (Document α)
  | r, [] =>
    if r.ended then pure r.document
    else refuse (.malformed lastLine (Defect.missingEnd : Defect α).message)
  | r, t :: rest =>
    if r.ended then pure r.document
    else do
      let r ← restate (fun defect => Fault.malformed t.line defect.message) (Sliced.token r t)
      readSlicedFrom lastLine r rest

/-- The document of a text, read by slices. -/
def ofTextSliced? (text : List Char) : Slicing Fault (Document α) := do
  match ← Sliced.tokens text with
  | [] => refuse (.malformed 1 (Defect.emptyText : Defect α).message)
  | tokens => readSlicedFrom ((tokens.getLast?.map Token.line).getD 1) .start tokens

/-- The document of a file, read by slices. -/
def ofBytesSliced? (bytes : List UInt8) : Slicing Fault (Document α) :=
  match Utf8.decode bytes with
  | (text, []) => ofTextSliced? text
  | (text, _) => refuse (.malformed (lineOfEnd text) "invalid UTF-8 in Gerber file")

end Document

end BoardMill.Gerber
