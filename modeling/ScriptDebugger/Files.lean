import ScriptDebugger.Text.Utf8
/-!
# File trees

A tree of files in memory, and what a path means in it. A path is followed component by component;
each step but the last has to stand in a directory, also where it is `.` or `..` or empty.
-/

namespace ScriptDebugger

/-- Why a path leads nowhere. -/
inductive PathError
  /-- Something on the way, or at its end, is not there. -/
  | missing
  /-- A file stands where a directory has to. -/
  | notDirectory
  /-- What stands at its end cannot be run. -/
  | notRunnable
  deriving DecidableEq, Repr

/-- The message for a path that leads nowhere. -/
def PathError.message : PathError → String
  | .missing => "No such file or directory (os error 2)"
  | .notDirectory => "Not a directory (os error 20)"
  | .notRunnable => "Permission denied (os error 13)"

/-- Files under absolute paths, held as their components. -/
structure FileTree where
  /-- Directories that exist even where they are empty. -/
  directories : List (List String)
  /-- The files and their bytes. -/
  files : List (List String × List UInt8)

namespace FileTree

/-- The components of a path. -/
def components (path : String) : List String := path.splitOn "/"

/-- The components of an absolute path that are names. -/
def names (path : String) : List String := (components path).filter fun c => c != "" && c != "."

/-- A directory with files, whose names may have several components. -/
def ofList (root : String) (entries : List (String × List UInt8)) : FileTree :=
  ⟨[names root], entries.map fun (name, bytes) => (names root ++ names name, bytes)⟩

/-- Whether a place is a directory. -/
def isDirectory (t : FileTree) (place : List String) : Bool :=
  t.directories.any place.isPrefixOf ||
    t.files.any fun f => place.isPrefixOf f.1 && place.length < f.1.length

/-- Whether a place is a file. -/
def isFile (t : FileTree) (place : List String) : Bool := t.files.any fun f => f.1 == place

/-- The reason for which a place is no directory. -/
def errorAt (t : FileTree) (place : List String) : PathError :=
  if t.isFile place then .notDirectory else .missing

/-- Follows components from a place. -/
def walk (t : FileTree) (place : List String) : List String → Except PathError (List String)
  | [] => .ok place
  | c :: rest =>
    if !t.isDirectory place then .error (t.errorAt place)
    else if c = "" ∨ c = "." then walk t place rest
    else if c = ".." then walk t place.dropLast rest
    else walk t (place ++ [c]) rest

/-- The place that a path means, seen from a directory. -/
def place (t : FileTree) (cwd path : String) : Except PathError (List String) :=
  if path.startsWith "/" then walk t [] (components path) else walk t (names cwd) (components path)

/-- The directory that a path means; the empty path means none. -/
def directory (t : FileTree) (path : String) : Except PathError (List String) := do
  let place ← t.place "/" path
  if path = "" then .error .missing
  else if t.isDirectory place then .ok place
  else .error (t.errorAt place)

/-- The bytes of the file at a path. -/
def read? (t : FileTree) (cwd path : String) : Option (List UInt8) :=
  match t.place cwd path with
  | .ok place => (t.files.find? fun f => f.1 == place).map Prod.snd
  | .error _ => none

/-- The text of the file at a path. -/
def readText? (t : FileTree) (cwd path : String) : Option String :=
  (t.read? cwd path).bind Text.Utf8.decode?

end FileTree

end ScriptDebugger
