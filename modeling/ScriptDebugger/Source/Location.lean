/-!
# Locations

A place in a source text: the line counted from one, the column counted in characters from zero.
-/

namespace ScriptDebugger

/-- A place in a source text. -/
structure Location where
  /-- The line, counted from one. -/
  line : Nat
  /-- The column, counted in characters from zero. -/
  column : Nat
  deriving DecidableEq, Repr, Inhabited

end ScriptDebugger
