import BoardMill.Files

/-! # File trees

A file tree is everything that stands below a root. Paths that do not begin with a stroke
begin in the working directory. They are followed name by name, through directories only.
-/

namespace BoardMill

/-- The names that lead from the root to a place. -/
abbrev Place := List (List Char)

/-- What stands at a place. -/
inductive FileEntry where
  | file (content : ByteArray)
  | directory
  /-- Has no content, and loses what is written to it, if it has room for it at all. -/
  | device (hasRoom : Bool)

/-- Places, what stands there, and the place of the working directory. -/
structure FileTree where
  entries : List (Place × FileEntry)
  home : Place

namespace FileTree

/-- The directories that every root has. -/
def rootNames : List String :=
  ["bin", "boot", "dev", "etc", "home", "lib", "media", "mnt", "opt", "proc", "root", "run",
    "sbin", "srv", "sys", "tmp", "usr", "var"]

/-- The tree of an empty working directory, among what every system has. -/
def empty : FileTree :=
  let device (name : String) (hasRoom : Bool) := (["dev".toList, name.toList], .device hasRoom)
  let home := ["tmp".toList, "job".toList]
  { entries := rootNames.map (fun name => ([name.toList], .directory)) ++
      [device "null" true, device "full" false, device "stdin" true, device "stderr" true,
        (home, .directory)]
    home }

/-- What stands at a place. -/
def entry? (t : FileTree) (place : Place) : Option FileEntry :=
  if place = [] then some .directory else t.entries.lookup place

/-- Entries with one put at its place. -/
def putEntry (place : Place) (entry : FileEntry) :
    List (Place × FileEntry) → List (Place × FileEntry)
  | [] => [(place, entry)]
  | first :: rest =>
    if first.1 = place then (place, entry) :: rest else first :: putEntry place entry rest

/-- The tree with an entry at a place. -/
def put (t : FileTree) (place : Place) (entry : FileEntry) : FileTree :=
  { t with entries := putEntry place entry t.entries }

/-- The files below the working directory, under their paths from there. -/
def files (t : FileTree) : List (List Char × ByteArray) :=
  t.entries.filterMap fun (place, entry) =>
    match entry with
    | .file content =>
      if t.home.isPrefixOf place then
        some (['/'].intercalate (place.drop t.home.length), content)
      else none
    | _ => none

/-! ## Following paths -/

/-- Whether a step of a path stays where it is. -/
def staysAt (step : List Char) : Bool := step == [] || step == ['.']

/-- How many bytes a text has. -/
def byteCount (text : List Char) : Nat := text.foldl (fun count c => count + c.utf8Size) 0

/-- The greatest number of bytes in a name. -/
def nameLimit : Nat := 255

/-- The greatest number of bytes in a path. -/
def pathLimit : Nat := 4095

/-- The place that a step leads to from a directory. It need not be there. Nothing is above
the root. -/
def enter (here : Place) (step : List Char) : Except FileError Place :=
  if staysAt step then pure here
  else if step = ['.', '.'] then pure here.dropLast
  else if nameLimit < byteCount step then throw .nameTooLong
  else pure (here ++ [step])

/-- The place that steps lead to from a place. What they lead to need not be there, but
all before it is a directory. -/
def follow (t : FileTree) (here : Place) : List (List Char) → Except FileError Place
  | [] => pure here
  | step :: rest =>
    match t.entry? here with
    | none => throw .notFound
    | some .directory => do t.follow (← enter here step) rest
    | some _ => throw .notDirectory

/-- Where a path begins, and its steps. -/
def steps (t : FileTree) (path : List Char) : Except FileError (Place × List (List Char)) :=
  if path.isEmpty then throw .notFound
  else if pathLimit < byteCount path then throw .nameTooLong
  else pure (if path.head? = some '/' then [] else t.home, path.splitOn '/')

/-- The place that a path leads to. -/
def place (t : FileTree) (path : List Char) : Except FileError Place := do
  let (here, steps) ← t.steps path
  t.follow here steps

/-- Steps without the empty ones that strokes at the end of a path make. -/
def blunt (steps : List (List Char)) : List (List Char) :=
  (steps.reverse.dropWhile (·.isEmpty)).reverse

/-! ## Reading and writing -/

/-- What stands where a path leads. -/
def find? (t : FileTree) (path : List Char) : Option FileEntry :=
  match t.place path with
  | .ok place => t.entry? place
  | .error _ => none

/-- Whether a path leads to a directory. -/
def isDirectory (t : FileTree) (path : List Char) : Bool :=
  match t.find? path with
  | some .directory => true
  | _ => false

/-- The content of a file. -/
def read (t : FileTree) (path : List Char) : Except FileError ByteArray := do
  match t.entry? (← t.place path) with
  | some (.file content) => return content
  | some .directory => throw .isDirectory
  | some (.device _) => return ByteArray.empty
  | none => throw .notFound

/-- The place of a file that can be written. A path with a stroke at its end is that of a
directory, whether there is one or not: only the way to it is followed. -/
def target (t : FileTree) (path : List Char) : Except FileError Place := do
  let (here, steps) ← t.steps path
  if path.getLast? = some '/' then
    let _ ← t.follow here ((blunt steps).dropLast ++ [['.']])
    throw .isDirectory
  t.follow here steps

/-- The tree with a file under a path. -/
def write (t : FileTree) (path : List Char) (content : ByteArray) :
    Except FileError FileTree := do
  let place ← t.target path
  match t.entry? place with
  | some .directory => throw .isDirectory
  | some (.device hasRoom) => if hasRoom then return t else throw .noRoom
  | _ => return t.put place (.file content)

/-- The tree with a directory under a path. Strokes at the end do not count. -/
def makeDirectory (t : FileTree) (path : List Char) : Except FileError FileTree := do
  let (here, steps) ← t.steps path
  let place ← t.follow here (blunt steps)
  match t.entry? place with
  | some _ => throw .alreadyExists
  | none => return t.put place .directory

/-- Replaces the tree if there is a new one. -/
def update (t : FileTree) : Except FileError FileTree → Except FileError Unit × FileTree
  | .ok t => (.ok (), t)
  | .error error => (.error error, t)

instance : Files (StateM FileTree) where
  isPresent path t := ((t.find? path.toList).isSome, t)
  isDirectory path t := (t.isDirectory path.toList, t)
  read path t := (t.read path.toList, t)
  write path content t := t.update (t.write path.toList content)
  makeDirectory path t := t.update (t.makeDirectory path.toList)

end FileTree

end BoardMill
