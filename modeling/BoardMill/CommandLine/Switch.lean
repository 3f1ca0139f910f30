import BoardMill.CommandLine.Invocation
import BoardMill.Decimal.Reading

/-! # Switches

Switches begin with two hyphens and a name; one has a letter behind a single hyphen as
well. Most take a value, and what kind of value decides which texts are accepted.
-/

namespace BoardMill

/-- The commands that a command line can name. -/
inductive Verb where
  | gcode
  | drill
  | render
  | board
  | bounds
  deriving DecidableEq, Repr

namespace Verb

/-- The command of a name. -/
def ofName? (name : String) : Option Verb :=
  match name with
  | "gcode" => some gcode
  | "drill" => some drill
  | "render" => some render
  | "board" => some board
  | "bounds" => some bounds
  | _ => none

/-- Whether a command takes one more file than those it has. -/
def takesFile (verb : Verb) (files : List String) : Bool := verb == bounds || files.isEmpty

end Verb

/-- What was read of a command line. -/
structure Draft where
  verb : Option Verb
  files : List String
  settings : Option String
  output : Option String
  stampDirectory : Option String
  scale : Option Float
  cutHoles : Bool
  adjust : Machine Float → Machine Float
  /-- The names of the switches given since the start or since the command. -/
  given : List String

/-- The command line without arguments. -/
def Draft.empty : Draft where
  verb := none
  files := []
  settings := none
  output := none
  stampDirectory := none
  scale := none
  cutHoles := true
  adjust := id
  given := []

/-- What a switch does. -/
inductive SwitchEffect where
  | flag (put : Draft → Draft)
  | path (put : String → Draft → Draft)
  | number (put : Float → Draft → Draft)
  | word (put : Nat → Draft → Draft)

/-- A switch. -/
structure Switch where
  name : String
  letter : Option Char
  /-- Whether a value may begin with a hyphen. -/
  takesHyphen : Bool
  effect : SwitchEffect

namespace Switch

/-- Reads a word of 32 bits. A minus is accepted in front of zero. -/
def readWord? (text : List Char) : Option Nat :=
  match text with
  | '-' :: digits => if !digits.isEmpty && digits.all (· == '0') then some 0 else none
  | _ => Decimal.readWord32? text

/-- Whether the switch takes a value. -/
def takesValue (s : Switch) : Bool :=
  match s.effect with
  | .flag _ => false
  | _ => true

/-- Carries out a switch with its value, if the value is accepted. -/
def accept? (s : Switch) (value : List Char) : Option (Draft → Draft) :=
  match s.effect with
  | .flag put => some put
  | .path put => if value.isEmpty then none else some (put (String.ofList value))
  | .number put => (Decimal.readGeneral? value).map put
  | .word put => (readWord? value).map put

/-- A switch for a machine parameter that is a number. -/
def machineNumber (name : String) (takesHyphen : Bool)
    (put : Float → Machine Float → Machine Float) : Switch :=
  ⟨name, none, takesHyphen, .number fun v d => { d with adjust := put v ∘ d.adjust }⟩

/-- A switch for a machine parameter that is a word. -/
def machineWord (name : String) (put : Nat → Machine Float → Machine Float) : Switch :=
  ⟨name, none, false, .word fun v d => { d with adjust := put v ∘ d.adjust }⟩

/-- The switches that may stand anywhere. -/
def general : List Switch :=
  [⟨"config", none, false, .path fun v d => { d with settings := some v }⟩,
   ⟨"output", some 'o', false, .path fun v d => { d with output := some v }⟩,
   machineNumber "feedrate" false fun v m => { m with feedRate := v },
   machineNumber "plunge-feedrate" false fun v m => { m with plungeFeedRate := v },
   machineNumber "tool-width" false fun v m => { m with toolWidth := v },
   machineWord "power" fun v m => { m with power := v },
   machineNumber "safe-z" false fun v m => { m with safeZ := v },
   machineNumber "cut-z" true fun v m => { m with cutZ := v },
   machineNumber "change-z" false fun v m => { m with changeZ := v },
   machineNumber "drill-z" true fun v m => { m with drillZ := v },
   machineNumber "drill-feedrate" false fun v m => { m with drillFeedRate := v },
   machineWord "spindle-speed" fun v m => { m with spindleSpeed := v }]

/-- The switches of the command that makes pictures. -/
def picture : List Switch :=
  [⟨"dump-apertures", none, false, .path fun v d => { d with stampDirectory := some v }⟩,
   ⟨"ppmm", none, false, .number fun v d => { d with scale := some v }⟩,
   ⟨"no-holes", none, false, .flag fun d => { d with cutHoles := false }⟩]

/-- The switches that a command has, or those that stand before it. -/
def available (verb : Option Verb) : List Switch :=
  if verb = some .render then picture ++ general else general

end Switch

end BoardMill
