import BoardMill.Archive.Zip
import BoardMill.Board.Loading
import BoardMill.Box.Json
import BoardMill.CommandLine.Reading
import BoardMill.CommandLine.Usage
import BoardMill.Files.Path
import BoardMill.Machine.Settings
import BoardMill.Picture
import BoardMill.Picture.Png

/-! # Running tasks

A task reads all of its input before it writes anything. A program that fails halfway
is written up to there.
-/

namespace BoardMill

/-- Why a task fails: the status of the program and the text that the user sees. -/
structure Failure where
  code : Nat
  message : String
  deriving DecidableEq, Repr

/-- The failure of a fault. -/
def Failure.ofFault (fault : Fault) : Failure := ⟨fault.exitCode, fault.message⟩

/-- The failure of a file that cannot be opened. -/
def Failure.cannotOpen (path : String) (error : FileError) : Failure :=
  ⟨2, s!"cannot open {path}: {error.message}"⟩

/-- The failure of settings that cannot be read. -/
def Failure.badSettings (path : String) (fault : Fault) : Failure :=
  ⟨1, s!"bad config {path}: {fault.message}"⟩

/-- A computation that may end the program. -/
abbrev Running (m : Type → Type) := ExceptT Failure m

namespace Running

variable {m : Type → Type} [Monad m] [Files m] {α : Type} [Numeral α]

/-- Goes on with a result, or ends with its fault. -/
def ofFault {β : Type} : Except Fault β → Running m β
  | .ok value => pure value
  | .error fault => throw (.ofFault fault)

/-- The bytes of an input file. A directory can be opened, but not read. -/
def input (path : String) : Running m ByteArray := do
  match ← (Files.read path : m _) with
  | .ok bytes => return bytes
  | .error .isDirectory => throw (.ofFault (.ofFile .isDirectory))
  | .error error => throw (.cannotOpen path error)

/-- Writes an output file. -/
def output (path : String) (bytes : ByteArray) : Running m Unit := do
  match ← (Files.write path bytes : m _) with
  | .ok _ => return ()
  | .error error => throw (.ofFault (.ofFile error))

/-- Writes a picture. -/
def outputPicture (path : String) (bytes : ByteArray) : Running m Unit := do
  match ← (Files.write path bytes : m _) with
  | .ok _ => return ()
  | .error error => throw (.ofFault (.unrenderable error.message))

/-- Writes what a sink holds, and ends with the fault of its program. -/
def outputProgram (path : String) (program : Except Fault Unit × GCode.Sink Float) :
    Running m Unit := do
  output path ⟨program.2.tape.bytes⟩
  ofFault program.1

/-- The machine of an invocation: the defaults or what its settings describe, and the
parameters of the command line. -/
def machine (i : Invocation) : Running m (Machine Float) := do
  match i.settings with
  | none => return i.adjust .default
  | some path =>
    match ← (Files.readText path : m _) with
    | .error fault => throw (.badSettings path fault)
    | .ok text =>
      match Machine.ofJson text with
      | .error fault => throw (.badSettings path fault)
      | .ok machine => return i.adjust machine

/-- The path of an output that is given, or that is next to a file with another
extension. -/
def outputPath (i : Invocation) (file extension : String) : String :=
  i.output.getD (String.ofList (Path.withExtension file.toList extension.toList))

/-- The document of an input file. -/
def document (file : String) : Running m (Gerber.Document Float) := do
  ofFault (Gerber.Document.ofBytes? (← input file).data.toList)

/-- The drill program of an input file. -/
def drillProgram (file : String) : Running m (Drill.Program Float) := do
  ofFault (Drill.Program.ofBytes? (← input file).data.toList)

/-- The title of the program of a file. -/
def title (file : String) : String := s!"pcb-cam {file}"

/-- Writes the program of a document. -/
def mill (i : Invocation) (machine : Machine Float) (file : String) : Running m Unit := do
  let document ← document file
  let bounds ← ofFault document.bounds
  let sink := GCode.Sink.start machine bounds.toOrigin none
  outputProgram (outputPath i file "gcode") (sink.document document (title file))

/-- Writes the program of a drill file. -/
def drill (i : Invocation) (machine : Machine Float) (file : String) : Running m Unit := do
  let program ← drillProgram file
  let bounds ← ofFault program.bounds
  let sink := GCode.Sink.start machine bounds.toOrigin none
  outputProgram (outputPath i file "gcode") (sink.drilling program (title file))

/-- The file of a stamp, with its hole. -/
def stampBytes (s : Stamp α) : ByteArray :=
  let surface := s.surface
  Png.encode surface.width surface.height (Paint.rows surface.width surface.height [s.paint true])

/-- The path of the stamp of a number in a directory. -/
def stampPath (directory : String) (number : Nat) : String :=
  let name := s!"aperture-{number}.png"
  String.ofList (Path.join directory.toList name.toList)

/-- Writes stamps into a directory, under their numbers. -/
def outputStamps (directory : String) (stamps : List (Stamp α)) : Running m Unit :=
  stamps.forM fun s => outputPicture (stampPath directory s.number) (stampBytes s)

/-- Makes a directory and those above it. -/
def makeDirectory (path : String) : Running m Unit := do
  match ← (Files.makeDirectories path : m _) with
  | .ok _ => return ()
  | .error error => throw (.ofFault (.ofFile error))

/-- The surface for a box. The directory for stamps is made if there is one. -/
def surface (box : Box α) (stampDirectory : Option String) (options : PictureOptions α) :
    Running m (Surface α) := do
  let surface ← ofFault (Surface.ofBox box options)
  stampDirectory.forM makeDirectory
  return surface

/-- The picture of a document. The stamps that were made are written also if the picture
cannot be completed. -/
def picture (document : Gerber.Document α) (stampDirectory : Option String)
    (options : PictureOptions α) : Running m (Picture α) := do
  let bounds ← ofFault document.bounds
  let surface ← surface bounds stampDirectory options
  let (drawing, ending) := document.draw options surface.frame
  stampDirectory.forM fun directory => outputStamps directory drawing.stamps
  ofFault ending
  return { bounds, surface, cutHoles := options.cutHoles, drawing }

/-- Writes the picture of a document. -/
def render (i : Invocation) (file : String) (stampDirectory : Option String)
    (options : PictureOptions Float) : Running m Unit := do
  let picture ← picture (← document file) stampDirectory options
  outputPicture (outputPath i file "png")
    (Png.encode picture.surface.width picture.surface.height picture.rows)

/-- Whether a path is that of an archive. -/
def isArchive (path : String) : Bool :=
  match Path.extension? path.toList with
  | some extension => extension.map Decimal.lower == "zip".toList
  | none => false

/-- The board of an archive. -/
def archiveBoard [Archive.Unpacking] (path : String) : Running m (Board Float) := do
  match ← (Files.read path : m _) with
  | .error error => throw (.cannotOpen path error)
  | .ok bytes =>
    let archive ← ofFault (Archive.ofBytes? bytes)
    ofFault (Board.ofArchive archive).outcome.1

/-- The board of the files of a base name. -/
def filesBoard (base : String) : Running m (Board Float) := do
  match ← ((Board.ofFiles base : NotingT m (Board Float)).outcome : m _) with
  | (.ok board, _) => return board
  | (.error (.fileAccess reason), _) => throw ⟨2, reason⟩
  | (.error fault, _) => throw (.ofFault fault)

/-- The path of the output of a layer. -/
def layerPath (i : Invocation) (base : String) (l : Layer Float) : String :=
  let stem := ((Path.stem? base.toList).map String.ofList).getD "board"
  let directory := (i.output.map String.toList).getD (Path.parent base.toList)
  String.ofList (Path.join directory (l.outputName stem).toList)

/-- Makes a file of some bytes, and tells its path. -/
def create (path : String) (bytes : ByteArray) : m (Except Fault String) := do
  match ← Files.write path bytes with
  | .ok _ => return .ok path
  | .error error => return .error (.ofFile error)

/-- Writes the programs of all layers of a board. The file of a layer is made before its
program is written. -/
def board [Archive.Unpacking] (i : Invocation) (machine : Machine Float) (base : String) :
    Running m Unit := do
  let loaded ← if isArchive base then archiveBoard base else filesBoard base
  let (result, _) ← ((loaded.generate machine none
    (fun l => create (layerPath i base l) .empty)
    (fun path tape => create path ⟨tape.bytes⟩)).outcome : m _)
  let _ ← ofFault result

/-- The box of a file. -/
def fileBounds (file : String) : Running m (Box Float) := do
  if LayerKind.ofFileName file = .drills then
    ofFault (← drillProgram file).bounds
  else
    ofFault (← document file).bounds

/-- The box of some files, as a text. -/
def bounds (files : List String) : Running m String := do
  let box ← files.foldlM (fun box file => return box.cover (← fileBounds file)) Box.empty
  return box.prettyJson ++ "\n"

/-- Does a task, and gives the text that the program prints. -/
def task [Archive.Unpacking] (i : Invocation) : Running m String := do
  let machine ← machine i
  match i.task with
  | .mill file => mill i machine file; return ""
  | .drill file => drill i machine file; return ""
  | .render file stampDirectory scale cutHoles =>
    let standard : PictureOptions Float := .default
    let options := { standard with scale := scale.getD standard.scale, cutHoles }
    render i file stampDirectory options
    return ""
  | .board base => board i machine base; return ""
  | .bounds files => bounds files

end Running

/-- How the program ends. -/
inductive Ending where
  | done (output : String)
  | failed (failure : Failure)
  | misused
  | help
  deriving DecidableEq, Repr

/-- The status of the program. -/
def Ending.code : Ending → Nat
  | done _ | help => 0
  | failed failure => failure.code
  | misused => 2

/-- What the program prints. -/
def Ending.output : Ending → String
  | done output => output
  | help => usage ++ "\n"
  | failed _ | misused => ""

/-- Runs the program on a command line. -/
def Ending.ofArguments {m : Type → Type} [Monad m] [Files m] [Archive.Unpacking]
    (arguments : List String) : m Ending := do
  match Invocation.ofArguments? arguments with
  | .error .misused => return misused
  | .error .help => return help
  | .ok i =>
    match ← (Running.task i).run with
    | .ok output => return done output
    | .error failure => return failed failure

end BoardMill
