import ScriptDebugger.Decimal.Shortest
/-!
# Values

The values a program computes with, and the names under which a debugger speaks of frames, objects
and code units.
-/

namespace ScriptDebugger

/-- Names an activation of a code unit. -/
structure FrameId where
  /-- The number of the frame. -/
  number : Nat
  deriving DecidableEq, Repr, Inhabited

/-- Names an object. -/
structure ObjectId where
  /-- The number of the object. -/
  number : Nat
  deriving DecidableEq, Repr, Inhabited

/-- Names a module or the body of a function. -/
structure UnitId where
  /-- The number of the unit. -/
  number : Nat
  deriving DecidableEq, Repr, Inhabited

/-- A value inside a running program. -/
inductive Value
  | undefined
  | null
  | bool (value : Bool)
  | number (value : Float)
  | string (value : String)
  | object (id : ObjectId)
  /-- The content of a binding that is declared and has not been assigned. -/
  | uninitialized
  deriving DecidableEq, Inhabited

namespace Value

/-- Whether a value counts as true. -/
def isTruthy : Value → Bool
  | .undefined | .null | .uninitialized => false
  | .bool b => b
  | .number x => !(x == 0) && !x.isNaN
  | .string s => !s.isEmpty
  | .object _ => true

/-- The text of a number: the fewest digits that read back, always positional, a tie going to the
larger digit. Both zeros are written the same way. -/
def numberText (x : Float) : String :=
  if x.isNaN then "NaN"
  else
    let magnitude :=
      if x.isInf then "Infinity".toList else (Decimal.shortest x .up).positional
    String.ofList (if x < 0 then '-' :: magnitude else magnitude)

end Value

end ScriptDebugger
