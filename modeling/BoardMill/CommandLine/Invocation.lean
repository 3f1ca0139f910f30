import BoardMill.Machine

/-! # Invocations

What a command line asks for: a task with the files it works on, and how the machine is
to be driven.
-/

namespace BoardMill

/-- What is to be done. -/
inductive Task where
  /-- Turns a document into a machine program. -/
  | mill (file : String)
  /-- Turns a drill file into a machine program. -/
  | drill (file : String)
  /-- Makes a picture of a document, with pictures of its stamps in a directory if there
  is one. -/
  | render (file : String) (stampDirectory : Option String) (scale : Option Float)
      (cutHoles : Bool)
  /-- Turns all layers of a board into machine programs. -/
  | board (base : String)
  /-- Tells the box of some files. -/
  | bounds (files : List String)

/-- A task and what goes with it. -/
structure Invocation where
  task : Task
  /-- The file of the machine parameters. -/
  settings : Option String
  /-- The file that is written, or the directory of the files of a board. -/
  output : Option String
  /-- Replaces the machine parameters that the command line gives. -/
  adjust : Machine Float → Machine Float

end BoardMill
