/-! # Faults

Everything that can stop a job, with the text a user sees and the status a program
ends with.
-/

namespace BoardMill

/-- Why a job stops. -/
inductive Fault where
  /-- The text of an input file breaks the rules of its format. -/
  | malformed (line : Nat) (reason : String)
  | unknownAperture (number line : Nat)
  | noApertureSelected (line : Nat)
  | invalidRegion (line : Nat) (reason : String)
  | unknownTool (number : Nat)
  | stepBeforeTool
  /-- A picture cannot be made. -/
  | unrenderable (reason : String)
  /-- A file cannot be read or written. -/
  | fileAccess (reason : String)
  | badSettings (reason : String)
  | badArchive (reason : String)
  deriving DecidableEq, Repr

namespace Fault

/-- The text a user sees. -/
def message : Fault → String
  | malformed line reason => s!"parse error on line {line}: {reason}"
  | unknownAperture number line => s!"unknown aperture D{number} (line {line})"
  | noApertureSelected line => s!"no aperture selected before use on line {line}"
  | invalidRegion line reason => s!"invalid region on line {line}: {reason}"
  | unknownTool number => s!"unknown tool T{number}"
  | stepBeforeTool => "drill step before tool"
  | unrenderable reason => s!"render error: {reason}"
  | fileAccess reason => s!"I/O error: {reason}"
  | badSettings reason => s!"JSON error: {reason}"
  | badArchive reason => s!"ZIP error: {reason}"

/-- The status a program ends with. -/
def exitCode : Fault → Nat
  | malformed .. | badArchive _ => 3
  | badSettings _ => 1
  | _ => 5

/-- The fault of a file whose bytes are not text is one of the text; any other one is
of the access. -/
def ofRead (line : Nat) (notText : Bool) (reason : String) : Fault :=
  if notText then malformed line s!"invalid text: {reason}" else fileAccess reason

end Fault

/-- How much a notice matters. -/
inductive Severity where
  | info
  | warning
  deriving DecidableEq, Repr

/-- A remark on a job that does not stop it. -/
structure Notice where
  severity : Severity
  text : String
  deriving DecidableEq, Repr

end BoardMill
