import BoardMill.Text.Search

/-! # Paths

A path is a text in which strokes set names apart. Names are told from the end: a
stroke at the end, or a name that is a single point, does not count.
-/

namespace BoardMill.Path

/-- A path read from its end, without what does not count. -/
def trimReversed : List Char → List Char
  | '/' :: rest => trimReversed rest
  | '.' :: '/' :: rest => trimReversed rest
  | path => path

/-- A path without what does not count at its end. -/
def trimmed (path : List Char) : List Char := (trimReversed path.reverse).reverse

/-- The last name of a path. A path that leads upwards at its end has none. -/
def fileName? (path : List Char) : Option (List Char) :=
  let name := Text.lastPart '/' (trimmed path)
  if name = [] ∨ name = ['.'] ∨ name = ['.', '.'] then none else some name

/-- The part of a path before its last name. -/
def beforeName (path : List Char) : List Char :=
  let path := trimmed path
  path.take (path.length - (Text.lastPart '/' path).length)

/-- The directory that holds what a path leads to. -/
def parent (path : List Char) : List Char :=
  match beforeName path, trimmed (beforeName path) with
  | '/' :: _, [] => ['/']
  | _, directory => directory

/-- A path and the directories above it, as many at most. -/
def upwardFrom : Nat → List Char → List (List Char)
  | 0, _ => []
  | n + 1, path => if path.isEmpty then [] else path :: upwardFrom n (parent path)

/-- A path, the directory that holds what it leads to, and so on. Each of these paths is
shorter than the one before. -/
def upward (path : List Char) : List (List Char) := upwardFrom path.length path

/-- A name without its extension, and the extension behind its last point. A point in
front begins no extension. -/
def splitName (name : List Char) : List Char × Option (List Char) :=
  let behind := Text.lastPart '.' name
  let stem := name.take (name.length - behind.length - 1)
  if stem.isEmpty then (name, none) else (stem, some behind)

/-- The extension of the last name. -/
def extension? (path : List Char) : Option (List Char) :=
  (fileName? path).bind fun name => (splitName name).2

/-- The last name without its extension. -/
def stem? (path : List Char) : Option (List Char) :=
  (fileName? path).map fun name => (splitName name).1

/-- The path with another extension. -/
def withExtension (path extension : List Char) : List Char :=
  match stem? path with
  | some stem => beforeName path ++ stem ++ '.' :: extension
  | none => path

/-- The path of a name in a directory. -/
def join (directory name : List Char) : List Char :=
  match directory.getLast? with
  | none => name
  | some '/' => directory ++ name
  | some _ => directory ++ '/' :: name

end BoardMill.Path
