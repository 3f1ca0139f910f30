import BoardMill.CommandLine.Switch

/-! # Reading command lines

Switches may stand before and behind the command. A switch is given at most once on
each side, and the one behind the command counts. Behind two hyphens that stand alone,
every argument is a file.
-/

namespace BoardMill

/-- Why a command line asks for no task. -/
inductive Refusal where
  /-- The command line is not understood. -/
  | misused
  /-- The command line asks how it is used. -/
  | help
  deriving DecidableEq, Repr

/-- What an argument looks like. -/
inductive Argument where
  /-- Two hyphens alone. -/
  | separator
  /-- A name behind two hyphens, possibly with a value behind an equals sign. -/
  | long (name : List Char) (value : Option (List Char))
  /-- A letter behind a hyphen, and what follows the letter. -/
  | short (letter : Char) (rest : List Char)
  | plain (text : List Char)
  deriving DecidableEq, Repr

namespace Argument

/-- What an argument looks like. A hyphen alone is plain. -/
def ofText (text : List Char) : Argument :=
  match text with
  | ['-', '-'] => separator
  | '-' :: '-' :: rest =>
    match Decimal.splitAtFirst? '=' rest with
    | some (name, value) => long name (some value)
    | none => long rest none
  | '-' :: letter :: rest => short letter rest
  | _ => plain text

/-- Whether an argument can be the value of a switch. -/
def isValueOf (s : Switch) (text : List Char) : Bool :=
  s.takesHyphen || match ofText text with
    | plain _ => true
    | _ => false

end Argument

namespace Draft

/-- A step of reading. -/
abbrev Step := Except Refusal Draft

/-- Carries out a switch that is given for the first time. -/
def give (d : Draft) (s : Switch) (value : List Char) : Step :=
  if d.given.contains s.name then throw .misused
  else match s.accept? value with
    | some put => pure (put { d with given := s.name :: d.given })
    | none => throw .misused

/-- Adds a file of the command. -/
def addFile (d : Draft) (text : List Char) : Step :=
  match d.verb with
  | some verb =>
    if text.isEmpty || !verb.takesFile d.files then throw .misused
    else pure { d with files := d.files ++ [String.ofList text] }
  | none => throw .misused

/-- The name of what tells how the program is used. -/
def helpName : List Char := ['h', 'e', 'l', 'p']

/-- Adds the argument that is a command or one of its files. -/
def addPlain (d : Draft) (text : List Char) : Step :=
  match d.verb with
  | some _ => d.addFile text
  | none =>
    match Verb.ofName? (String.ofList text) with
    | some verb => pure { d with verb := some verb, given := [] }
    | none => throw .misused

/-- What the command `help` comes to. It may name one command. -/
def help (names : List (List Char)) : Refusal :=
  match names with
  | [] => .help
  | [name] =>
    if name = helpName || (Verb.ofName? (String.ofList name)).isSome then .help else .misused
  | _ => .misused

/-- The switch of a name. -/
def named? (d : Draft) (name : List Char) : Option Switch :=
  (Switch.available d.verb).find? (·.name.toList == name)

/-- The switch of a letter. -/
def lettered? (d : Draft) (letter : Char) : Option Switch :=
  (Switch.available d.verb).find? (·.letter == some letter)

/-- Reads on. -/
def read (d : Draft) : List (List Char) → Step
  | [] => pure d
  | text :: rest =>
    match Argument.ofText text, rest with
    | .separator, rest => rest.foldlM addFile d
    | .plain text, rest =>
      if d.verb = none ∧ text = helpName then throw (help rest)
      else do read (← d.addPlain text) rest
    | .long name value, rest =>
      match d.named? name, value, rest with
      | none, _, _ => throw (if name = helpName ∧ value = none then .help else .misused)
      | some s, some value, rest =>
        if s.takesValue then do read (← d.give s value) rest else throw .misused
      | some s, none, [] => if s.takesValue then throw .misused else d.give s []
      | some s, none, value :: rest =>
        if !s.takesValue then do read (← d.give s []) (value :: rest)
        else if Argument.isValueOf s value then do read (← d.give s value) rest
        else throw .misused
    | .short letter value, rest =>
      match d.lettered? letter, value, rest with
      | none, _, _ => throw (if letter = 'h' then .help else .misused)
      | some s, '=' :: value, rest => do read (← d.give s value) rest
      | some s, c :: value, rest => do read (← d.give s (c :: value)) rest
      | some _, [], [] => throw .misused
      | some s, [], value :: rest =>
        if Argument.isValueOf s value then do read (← d.give s value) rest else throw .misused

/-- The task of a command and its files. Where no file is given, some commands have one of
their own. -/
def task (d : Draft) : Except Refusal Task :=
  match d.verb, d.files with
  | some .gcode, files => pure (.mill (files.headD "board-F_Cu.gbr"))
  | some .drill, files => pure (.drill (files.headD "board.drl"))
  | some .render, files =>
    pure (.render (files.headD "board-F_Cu.gbr") d.stampDirectory d.scale d.cutHoles)
  | some .board, base :: _ => pure (.board base)
  | some .bounds, file :: files => pure (.bounds (file :: files))
  | _, _ => throw .misused

end Draft

/-- The invocation of a command line. -/
def Invocation.ofArguments? (arguments : List String) : Except Refusal Invocation := do
  let d ← Draft.empty.read (arguments.map String.toList)
  return { task := ← d.task, settings := d.settings, output := d.output, adjust := d.adjust }

end BoardMill
