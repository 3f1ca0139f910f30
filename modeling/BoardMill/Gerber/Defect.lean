import BoardMill.Aperture

/-! # Defects of a Gerber text

What can be wrong with a single command, and how it is told.
-/

namespace BoardMill.Gerber

/-- Why a command cannot be accepted. Texts are given as they stand in the file. -/
inductive Defect (α : Type) where
  | emptyText
  | missingEnd
  -- Extended commands
  | unknownCommand (command : List Char)
  | badUnits (command : List Char)
  | badPolarity (command : List Char)
  | apertureMacro
  | stepAndRepeat
  | imageTransform (command : List Char)
  -- The coordinate format
  | incrementalFormat
  | formatWithoutX
  | formatWithoutY
  | formatOrder (command : List Char)
  | formatDigits (digits : List Char)
  -- Aperture definitions
  | definitionWithoutD (command : List Char)
  | definitionWithoutTemplate (definition : List Char)
  | definitionNumber (definition : List Char)
  | definitionBelowTen (number : Nat)
  | badParameter (parameter : List Char)
  | circleWithoutDiameter
  | missingSizes (template : List Char)
  | polygonWithoutVertices
  | fractionalVertices (count : α)
  | macroTemplate (template : List Char)
  | excessParameters (command : List Char)
  | aperture (defect : ApertureDefect α)
  -- Words
  | notAscii (word : List Char)
  | unknownStop (word : List Char)
  | badPreparation (code : List Char)
  | unknownPreparation (code : List Char)
  | incrementalCoordinates
  | malformedWord (word : List Char)
  | coordinatesOnSelect (word : List Char)
  | unknownOperation (code : Nat)
  | coordinatesWithoutOperation (word : List Char)
  | emptyWord (word : List Char)
  | coordinatesBeforeFormat
  | badCoordinate (text word : List Char)
  deriving Repr

/-- Two digits at least. -/
def twoDigits (n : Nat) : String := String.ofList (Decimal.padLeft 2 (Decimal.toDigits n))

/-- What is wrong, in words. -/
def Defect.message {α : Type} [Numeral α] : Defect α → String
  | emptyText => "empty Gerber file"
  | missingEnd => "missing M02 end-of-file marker"
  | unknownCommand command => "unrecognized extended command: " ++ String.ofList command
  | badUnits command => "bad unit mode: " ++ String.ofList command
  | badPolarity command => "bad polarity: " ++ String.ofList command
  | apertureMacro => "aperture macros are not supported"
  | stepAndRepeat => "step and repeat is not supported"
  | imageTransform command => "unsupported image transform: " ++ String.ofList command
  | incrementalFormat => "FS: incremental notation is not supported"
  | formatWithoutX => "FS: missing X"
  | formatWithoutY => "FS: missing Y"
  | formatOrder command => "FS: X must precede Y: " ++ String.ofList command
  | formatDigits digits => "FS: invalid format digits: " ++ String.ofList digits
  | definitionWithoutD command => "AD: expected D, got: " ++ String.ofList command
  | definitionWithoutTemplate definition =>
    "AD: no template type in: " ++ String.ofList definition
  | definitionNumber definition => "AD: bad aperture code: " ++ String.ofList definition
  | definitionBelowTen number => s!"AD: aperture numbers start at 10, got D{number}"
  | badParameter parameter => "AD: bad param: " ++ String.ofList parameter
  | circleWithoutDiameter => "AD C: missing diameter"
  | missingSizes template => s!"AD {String.ofList template}: need x_size and y_size"
  | polygonWithoutVertices => "AD P: need diameter and num_vertices"
  | fractionalVertices count =>
    s!"AD P: vertex count must be an integer: {Numeral.plain count}"
  | macroTemplate template => s!"AD: macro aperture '{String.ofList template}' is not supported"
  | excessParameters command => "AD: too many parameters in: " ++ String.ofList command
  | aperture defect => defect.message
  | notAscii word => "non-ASCII character in word: " ++ String.ofList word
  | unknownStop word => "unrecognized M code: " ++ String.ofList word
  | badPreparation code => "bad G code: " ++ String.ofList code
  | unknownPreparation code => "unrecognized G code: " ++ String.ofList code
  | incrementalCoordinates => "incremental coordinates are not supported"
  | malformedWord word => "malformed word: " ++ String.ofList word
  | coordinatesOnSelect word => "coordinates on aperture select: " ++ String.ofList word
  | unknownOperation code => s!"invalid D code D{twoDigits code}"
  | coordinatesWithoutOperation word => "coordinates without D code: " ++ String.ofList word
  | emptyWord word => "empty word: " ++ String.ofList word
  | coordinatesBeforeFormat => "coordinates before %FS format"
  | badCoordinate text word => s!"bad coordinate {String.ofList text} in {String.ofList word}"

end BoardMill.Gerber
