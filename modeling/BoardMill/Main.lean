import BoardMill.CommandLine.Run

/-! # The program

Runs the command line on the files of the system.
-/

namespace BoardMill

/-- What the number of an error stands for, which some of its sources give as negative. -/
def FileError.ofCode (code : UInt32) (text : String) : FileError :=
  match (if code < 0x80000000 then code else 0 - code).toNat with
  | 2 => .notFound
  | 17 => .alreadyExists
  | 20 => .notDirectory
  | 21 => .isDirectory
  | 28 => .noRoom
  | 36 => .nameTooLong
  | code => .other s!"{text} (os error {code})"

/-- What an error of the system stands for. -/
def FileError.ofSystem : IO.Error → FileError
  | .noFileOrDirectory _ code text | .alreadyExists _ code text | .inappropriateType _ code text
  | .invalidArgument _ code text | .permissionDenied _ code text
  | .resourceExhausted _ code text | .noSuchThing _ code text | .interrupted _ code text
  | .otherError code text | .resourceBusy code text | .resourceVanished code text
  | .unsupportedOperation code text | .hardwareFault code text
  | .unsatisfiedConstraints code text | .illegalOperation code text | .protocolError code text
  | .timeExpired code text => .ofCode code text
  | .unexpectedEof => .other "unexpected end of file"
  | .userError text => .other text

/-- The result of an action, or what is wrong. -/
def attempt {β : Type} (action : IO β) : IO (Except FileError β) := do
  try
    return .ok (← action)
  catch error =>
    return .error (.ofSystem error)

instance : Files IO where
  isPresent path := do return (← attempt (IO.FS.realPath path)).isOk
  isDirectory path := do
    match ← attempt (IO.FS.realPath path) with
    | .ok place => place.isDir
    | .error _ => return false
  read path := attempt (IO.FS.readBinFile path)
  write path bytes := attempt <| IO.FS.withFile path .write fun file => do
    file.write bytes
    file.flush
  makeDirectory path := attempt (IO.FS.createDir path)

instance : Archive.Unpacking := .none

end BoardMill

open BoardMill in
/-- Runs the program and tells how it ended. -/
def main (arguments : List String) : IO UInt32 := do
  let ending : Ending ← Ending.ofArguments arguments
  match ending with
  | .done _ | .help => IO.print ending.output
  | .failed failure => IO.eprintln s!"Error: {failure.message}"
  | .misused => IO.eprintln s!"error: the arguments are not understood\n\n{usageLine}"
  return UInt32.ofNat ending.code
