import BoardMill.Fault
import BoardMill.Gerber.Extended
import BoardMill.Gerber.Token
import BoardMill.Gerber.Word
import BoardMill.Text.Utf8

/-! # Reading Gerber documents

A document is read token by token. What a token may leave out is carried along: the
coordinate format, the last point, the curve and the last operation. Tokens behind
the end marker are not read, and without an end marker there is no document.
-/

namespace BoardMill.Gerber

/-- What a word does at its point. -/
inductive Operation where
  | interpolate
  | move
  | flash
  deriving DecidableEq, Repr

/-- What was read so far. -/
structure Reading (α : Type) where
  format : Option CoordinateFormat
  cursor : Point α
  mode : Interpolation
  operation : Option Operation
  ended : Bool
  blocks : Array (Located (Block α))
  apertures : ApertureTable α
  deriving Repr

namespace Reading

variable {α : Type} [Scalar α]

/-- Before the first token. -/
def start : Reading α where
  format := none
  cursor := ⟨0.0, 0.0⟩
  mode := .linear
  operation := none
  ended := false
  blocks := #[]
  apertures := .empty

/-- Adds a block. -/
def push (r : Reading α) (line : Nat) (block : Block α) : Reading α :=
  { r with blocks := r.blocks.push ⟨line, block⟩ }

/-- The document of the blocks and apertures read. -/
def document (r : Reading α) : Document α := ⟨r.blocks.toList, r.apertures⟩

/-- Carries out a preparation code. -/
def prepare (r : Reading α) (line : Nat) : Preparation → Reading α
  | .mode mode => { r with mode }
  | .regionStart => r.push line .regionStart
  | .regionEnd => r.push line .regionEnd
  | .units units => r.push line (.units units)
  | .nothing => r

/-- The coordinate of a field along an axis, if the field is there. -/
def coordinate? (format : CoordinateFormat) (axis : Axis) (word : List Char) (missing : α) :
    Option (List Char) → Except (Defect α) α
  | none => pure missing
  | some text =>
    match format.decode? axis text with
    | some value => pure value
    | none => throw (.badCoordinate text word)

/-- The block of an operation at a point. The center of an arc is given by its offset
from the last point. -/
def drawing (r : Reading α) (operation : Operation) (target offset : Point α) : Block α :=
  match operation with
  | .flash => .flash target
  | .move => .move target
  | .interpolate =>
    let center := match r.mode with
      | .linear => none
      | .clockwise | .counterclockwise =>
        some ⟨r.cursor.x + offset.x, r.cursor.y + offset.y⟩
    .interpolate r.mode target center

/-- Carries out an operation. -/
def operate (r : Reading α) (line : Nat) (word : List Char) (fields : Fields)
    (operation : Operation) : Except (Defect α) (Reading α) := do
  let some format := r.format | throw .coordinatesBeforeFormat
  let x ← coordinate? format .x word r.cursor.x fields.x
  let y ← coordinate? format .y word r.cursor.y fields.y
  let i ← coordinate? format .x word 0.0 fields.i
  let j ← coordinate? format .y word 0.0 fields.j
  let block := r.drawing operation ⟨x, y⟩ ⟨i, j⟩
  return { r.push line block with cursor := ⟨x, y⟩, operation := some operation }

/-- Carries out the fields of a word: the selection of an aperture, or an operation,
which is the last one if the word names none. -/
def fields (r : Reading α) (line : Nat) (word : List Char) (f : Fields) :
    Except (Defect α) (Reading α) :=
  match f.d with
  | some 1 => r.operate line word f .interpolate
  | some 2 => r.operate line word f .move
  | some 3 => r.operate line word f .flash
  | some code =>
    if code < 10 then throw (.unknownOperation code)
    else if f.hasCoordinates then throw (.coordinatesOnSelect word)
    else pure (r.push line (.select code))
  | none =>
    if f.hasCoordinates then
      match r.operation with
      | some operation => r.operate line word f operation
      | none => throw (.coordinatesWithoutOperation word)
    else throw (.emptyWord word)

/-- Carries out a word. -/
def word (r : Reading α) (line : Nat) (text : List Char) : Except (Defect α) (Reading α) := do
  match ← Word.read? text with
  | .finish => return { r with ended := true }
  | .pause => return r
  | .drawing preparation fields =>
    let r := match preparation with
      | some p => r.prepare line p
      | none => r
    match fields with
    | some f => r.fields line text f
    | none => return r

/-- Carries out an extended command. -/
def extended (r : Reading α) (line : Nat) (text : List Char) :
    Except (Defect α) (Reading α) := do
  match ← Extended.read? text with
  | .block block =>
    let r := r.push line block
    match block with
    | .format format => return { r with format := some format }
    | _ => return r
  | .define aperture =>
    match r.apertures.define aperture with
    | .ok apertures => return { r with apertures }
    | .error defect => throw (.aperture defect)
  | .nothing => return r

/-- Carries out a token. -/
def token (r : Reading α) (t : Token) : Except (Defect α) (Reading α) :=
  match t.kind with
  | .extended => r.extended t.line t.text
  | .word => r.word t.line t.text

end Reading

namespace Document

variable {α : Type} [Numeral α]

/-- Reads on from what was read, until the end marker. -/
def readFrom (lastLine : Nat) : Reading α → List Token → Except Fault (Document α)
  | r, [] =>
    if r.ended then pure r.document
    else throw (.malformed lastLine (Defect.missingEnd : Defect α).message)
  | r, t :: rest =>
    if r.ended then pure r.document
    else match r.token t with
      | .ok r => readFrom lastLine r rest
      | .error defect => throw (.malformed t.line defect.message)

/-- The document of a list of tokens. -/
def ofTokens? (tokens : List Token) : Except Fault (Document α) :=
  readFrom ((tokens.getLast?.map Token.line).getD 1) .start tokens

/-- The document of a text. -/
def ofText? (text : List Char) : Except Fault (Document α) :=
  match Token.ofText text with
  | [] => throw (.malformed 1 (Defect.emptyText : Defect α).message)
  | tokens => ofTokens? tokens

/-- The line on which a text breaks off, counted from one. -/
def lineOfEnd (text : List Char) : Nat := 1 + text.count '\n'

/-- The document of a file. Its bytes are text throughout, also behind the end marker. -/
def ofBytes? (bytes : List UInt8) : Except Fault (Document α) :=
  match Utf8.decode bytes with
  | (text, []) => ofText? text
  | (text, _) => throw (.malformed (lineOfEnd text) "invalid UTF-8 in Gerber file")

end Document

end BoardMill.Gerber
