import Badger.Path

/-!
# Files

The files that a command may read, as a value: a directory with files and directories
below it, and the place that relative paths start from.

## Main definitions

* `Place`: a place in the file system
* `Files`: the files below a directory
* `Files.find`: what a path leads to
* `Files.read`, `Files.changeDirectory`: the operations of commands
* `FileError`: an operation on a path that failed, worded by `FileError.message`

## Design notes

Following a path looks at each directory on the way, so `a/../b` leads nowhere unless there
is a directory `a`. Of what lies outside the directory only those around it are known.
-/

namespace Badger

/-- Why a path leads nowhere, or to the wrong thing. -/
inductive FileProblem where
  | notFound
  | notDirectory
  | isDirectory
  | nameTooLong
  | invalid
deriving DecidableEq, Repr

/-- The wording of a problem with a path. -/
def FileProblem.message : FileProblem → Text
  | .notFound => utf8 "no such file or directory"
  | .notDirectory => utf8 "not a directory"
  | .isDirectory => utf8 "is a directory"
  | .nameTooLong => utf8 "file name too long"
  | .invalid => utf8 "invalid argument"

/-- A failed operation on a path. -/
structure FileError where
  operation : String
  path : Text
  problem : FileProblem
deriving DecidableEq, Repr

/-- The wording of a failed operation. -/
def FileError.message (e : FileError) : Text :=
  utf8 e.operation ++ utf8 " " ++ e.path ++ utf8 ": " ++ e.problem.message

/-- What stands at a place among the files. -/
inductive Entry where
  | file (content : Text)
  | directory
deriving DecidableEq, Repr

/-- **A place in the file system**, by the names that lead to it. -/
inductive Place where
  /-- Below the directory that holds the files. -/
  | below (names : List Text)
  /-- Anywhere else, counted from the top of the file system. -/
  | outside (names : List Text)
deriving DecidableEq, Repr

/-- **Files.** What lies below the directory `root`, each entry with the names that lead to
it. -/
structure Files where
  root : Text
  /-- The names that lead from the top of the file system to the directory around `root`. -/
  around : List Text := []
  entries : List (List Text × Entry) := []
  /-- The current directory. -/
  current : Place := .below []
deriving DecidableEq, Repr

namespace Files

/-- What stands at a place. A place above an entry is a directory, and so is one above
`root`. -/
def entry? (fs : Files) : Place → Option Entry
  | .below names =>
    match fs.entries.lookup names with
    | some e => some e
    | none =>
      if names.isEmpty || fs.entries.any fun e => names.isPrefixOf e.1 then some .directory
      else none
  | .outside names => if names.isPrefixOf fs.around then some .directory else none

/-- The directory around a place. The top of the file system is around itself. -/
def above (fs : Files) : Place → Place
  | .below [] => if fs.root.isEmpty then .below [] else .outside fs.around
  | .below names => .below names.dropLast
  | .outside names => .outside names.dropLast

/-- A name below a place. -/
def below : Place → Text → Place
  | .below names, name => .below (names ++ [name])
  | .outside names, name => .outside (names ++ [name])

/-- The length that a path must not reach. -/
def pathLimit : Nat := 4096

/-- The length that a name must not exceed. -/
def nameLimit : Nat := 255

/-- Follows names from a place that must be a directory if any name is left. -/
def follow (fs : Files) : Place → List Text → Except FileProblem Place
  | place, [] => .ok place
  | place, name :: rest =>
    match fs.entry? place with
    | none => .error .notFound
    | some (.file _) => .error .notDirectory
    | some .directory =>
      if name = [] || name = Path.here then fs.follow place rest
      else if name = Path.up then fs.follow (fs.above place) rest
      else if nameLimit < name.length then .error .nameTooLong
      else fs.follow (below place name) rest

/-- The place and the names that following a path starts from. A path that starts with the
root's own starts there. -/
def start (fs : Files) (path : Text) : Place × List Text :=
  if path = fs.root then (.below [], [])
  else if Text.startsWith path (fs.root ++ [Path.slash]) then
    (.below [], Path.names (path.drop (fs.root.length + 1)))
  else if Path.isAbsolute path then (.outside [], Path.names path)
  else (fs.current, Path.names path)

/-- **What a path leads to**: the place and what stands there. -/
def find (fs : Files) (path : Text) : Except FileProblem (Place × Entry) :=
  if path.contains 0 then .error .invalid
  else if path.isEmpty then .error .notFound
  else if pathLimit ≤ path.length then .error .nameTooLong
  else
    let (place, names) := fs.start path
    match fs.follow place names with
    | .error p => .error p
    | .ok place =>
      match fs.entry? place with
      | none => .error .notFound
      | some e => .ok (place, e)

/-- Whether a path leads anywhere. -/
def exists? (fs : Files) (path : Text) : Bool := (fs.find path).isOk

/-- Opens a path: what stands there. -/
def open? (fs : Files) (path : Text) : Except FileError Entry :=
  match fs.find path with
  | .error p => .error ⟨"open", path, p⟩
  | .ok (_, e) => .ok e

/-- **Reads a file.** -/
def read (fs : Files) (path : Text) : Except FileError Text :=
  match fs.open? path with
  | .error e => .error e
  | .ok .directory => .error ⟨"read", path, .isDirectory⟩
  | .ok (.file content) => .ok content

/-- **Makes another directory the current one.** -/
def changeDirectory (fs : Files) (path : Text) : Except FileError Files :=
  match fs.find path with
  | .error p => .error ⟨"chdir", path, p⟩
  | .ok (_, .file _) => .error ⟨"chdir", path, .notDirectory⟩
  | .ok (place, .directory) => .ok { fs with current := place }

/-- The path of the current directory. An empty `root` is the top of the file system. -/
def currentPath (fs : Files) : Text :=
  let path := match fs.current with
    | .below names => Text.join [Path.slash] (fs.root :: names)
    | .outside names => Text.join [Path.slash] ([] :: names)
  if path.isEmpty then [Path.slash] else path

/-- A path spelled from the top. -/
def absolute (fs : Files) (path : Text) : Text :=
  if Path.isAbsolute path then Path.clean path else Path.join fs.currentPath path

end Files

end Badger
