import ScriptDebugger.Path
/-!
# Mapping of positions

The program that runs may be made from sources that the user edits. A mapper leads from positions in
the one to positions in the other. Lines and columns count from one on both sides.
-/

namespace ScriptDebugger.Session

/-- A position in a file. -/
structure Position where
  /-- The path of the file. -/
  path : String
  /-- The line. -/
  line : Nat
  /-- The column. -/
  column : Nat
  deriving DecidableEq, Repr

/-- A pair of maps between positions in the program and positions in its sources. -/
structure Mapper where
  /-- From the program to its sources. -/
  toSource : Position → Position
  /-- From the sources to the program. -/
  fromSource : Position → Position

/-- The mapper of a program that is its own source. -/
def Mapper.identity : Mapper := ⟨id, id⟩

/-- Where positions are mapped: the workspace and the mapper. -/
structure Frontier where
  /-- The directory of the user's files. -/
  workspace : String
  /-- The mapper of the program. -/
  mapper : Mapper

namespace Frontier

/-- The column behind a column that counts from zero, in 32 bits. -/
def successor (column : Nat) : Nat := (column + 1) % UInt32.size

/-- A position that the user names, as the agent knows it: relative to the workspace, with columns
from zero. -/
def toInternal (f : Frontier) (p : Position) : Position :=
  let mapped := f.mapper.fromSource { p with path := Path.normalize f.workspace p.path }
  { mapped with column := mapped.column - 1 }

/-- A position that the agent names, as the user knows it: with an absolute path and columns from
one. -/
def toExternal (f : Frontier) (p : Position) : Position :=
  let mapped := f.mapper.toSource { p with column := successor p.column }
  { mapped with path := Path.qualify f.workspace mapped.path }

end Frontier

end ScriptDebugger.Session
