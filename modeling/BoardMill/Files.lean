import BoardMill.Fault
import BoardMill.Files.Path
import BoardMill.Text.Utf8

/-! # Files

What a job needs of a file system: to read and write whole files under their paths,
and to make directories.
-/

namespace BoardMill

/-- Why a file cannot be had. -/
inductive FileError where
  | notFound
  | notDirectory
  | isDirectory
  | alreadyExists
  | nameTooLong
  | noRoom
  | other (text : String)
  deriving DecidableEq, Repr

/-- What is wrong, in the words of the system. -/
def FileError.message : FileError → String
  | notFound => "No such file or directory (os error 2)"
  | notDirectory => "Not a directory (os error 20)"
  | isDirectory => "Is a directory (os error 21)"
  | alreadyExists => "File exists (os error 17)"
  | nameTooLong => "File name too long (os error 36)"
  | noRoom => "No space left on device (os error 28)"
  | other text => text

/-- Effects among which files can be read and written. -/
class Files (m : Type → Type) where
  /-- Whether there is a file or directory. -/
  isPresent : String → m Bool
  /-- Whether there is a directory. -/
  isDirectory : String → m Bool
  /-- The bytes of a file. -/
  read : String → m (Except FileError ByteArray)
  /-- Makes a file of some bytes, in the place of an earlier one. -/
  write : String → ByteArray → m (Except FileError Unit)
  /-- Makes a directory in one that is there. -/
  makeDirectory : String → m (Except FileError Unit)

/-- The fault of a file that cannot be had. -/
def Fault.ofFile (error : FileError) : Fault := .fileAccess error.message

/-- The fault of a file that is no text. -/
def Fault.notText : Fault := .fileAccess "stream did not contain valid UTF-8"

namespace Files

variable {m : Type → Type} [Monad m] [Files m]

/-- The text of a file. -/
def readText (path : String) : m (Except Fault (List Char)) := do
  match ← read path with
  | .error error => return .error (.ofFile error)
  | .ok bytes =>
    match Utf8.decode? bytes.data.toList with
    | some text => return .ok text
    | none => return .error .notText

/-- Makes a directory unless it is there. -/
def keepDirectory (path : String) : m (Except FileError Unit) := do
  match ← makeDirectory path with
  | .ok _ => return .ok ()
  | .error error => return if ← isDirectory path then .ok () else .error error

/-- Makes the first of some directories. If there is no place for it, the ones behind it
are made before. -/
def makeUpward : List String → m (Except FileError Unit)
  | [] => return .ok ()
  | path :: above => do
    match ← keepDirectory path with
    | .error .notFound =>
      match ← makeUpward above with
      | .ok _ => keepDirectory path
      | .error error => return .error error
    | result => return result

/-- Makes a directory and those above it, as far as they are missing. -/
def makeDirectories (path : String) : m (Except FileError Unit) :=
  makeUpward ((Path.upward path.toList).map String.ofList)

end Files

end BoardMill
