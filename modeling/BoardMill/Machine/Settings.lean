import BoardMill.Fault
import BoardMill.Json.Reading
import BoardMill.Machine

/-! # Settings of a machine

Machine parameters are given as a JSON object whose keys name them, or as an array
in their order. Parameters that are not given keep their defaults, and other keys
are passed over.
-/

namespace BoardMill.Machine

open Json (Reader)

/-- A parameter: its key, and how its value is read. -/
structure Setting where
  key : String
  read : Reader (Machine Float → Machine Float)

/-- A parameter that is a number. -/
def Setting.float (key : String) (put : Float → Machine Float → Machine Float) : Setting :=
  ⟨key, return put (← Json.float)⟩

/-- A parameter that is a 32-bit word. -/
def Setting.word (key : String) (put : Nat → Machine Float → Machine Float) : Setting :=
  ⟨key, return put (← Json.word32)⟩

/-- All parameters in their order. -/
def settings : List Setting :=
  [.float "feedrate" fun v m => { m with feedRate := v },
   .float "plunge_feedrate" fun v m => { m with plungeFeedRate := v },
   .float "tool_width" fun v m => { m with toolWidth := v },
   .word "power" fun v m => { m with power := v },
   .float "safe_z" fun v m => { m with safeZ := v },
   .float "cut_z" fun v m => { m with cutZ := v },
   .float "change_z" fun v m => { m with changeZ := v },
   .float "drill_z" fun v m => { m with drillZ := v },
   .float "drill_feedrate" fun v m => { m with drillFeedRate := v },
   .word "spindle_speed" fun v m => { m with spindleSpeed := v }]

/-- Reads the members of an object until it closes, which have no more characters than a
limit. No parameter is given twice. -/
def readMembers (m : Machine Float) (open? : List Setting) (first : Bool) :
    Nat → Reader (Machine Float)
  | 0 => failure
  | limit + 1 => do
    Json.space
    if (← Json.peek) == some '\x7d' then
      let _ ← Json.take
      return m
    if !first then
      Json.expect ','
      Json.space
    let name := String.ofList (← Json.key Json.codePoint (limit + 1))
    Json.space
    match open?.find? (·.key == name) with
    | some setting =>
      let put ← setting.read
      readMembers (put m) (open?.filter (·.key != name)) false limit
    | none =>
      if settings.any (·.key == name) then failure
      Json.skip (limit + 1)
      readMembers m open? false limit

/-- Reads the elements of an array until it closes. -/
def readElements (m : Machine Float) (first : Bool) : List Setting → Reader (Machine Float)
  | [] => do
    Json.space
    Json.expect ']'
    return m
  | setting :: rest => do
    Json.space
    if (← Json.peek) == some ']' then
      let _ ← Json.take
      return m
    if !first then
      Json.expect ','
      Json.space
    let put ← setting.read
    readElements (put m) false rest

/-- Reads an object or an array of parameters. -/
def readSettings : Reader (Machine Float) := do
  Json.space
  match ← Json.take with
  | '\x7b' => readMembers default settings true ((← get).length + 1)
  | '[' => readElements default true settings
  | _ => failure

/-- The machine that a JSON text describes. Nothing but space may follow. -/
def ofJson (text : List Char) : Except Fault (Machine Float) :=
  match readSettings.run text with
  | some (m, rest) =>
    if rest.all Json.isSpace then pure m else throw (.badSettings "trailing characters")
  | none => throw (.badSettings "not a set of machine parameters")

end BoardMill.Machine
