import ScriptDebugger.Engine.Interface
/-!
# Breakpoints

The code units that are known for each source path, and the breakpoints that are set. A breakpoint
sits on the first instruction of a statement, in the unit that the statement belongs to, and is
known by a number that is never used again.

## Main results

* `idAt_set`, `remove_false_iff` — a breakpoint that is set is found at its place; removing fails
  exactly for a number that no breakpoint has.
-/

namespace ScriptDebugger.Debug

/-- A place where a breakpoint can be set. -/
structure Candidate where
  /-- The unit. -/
  unit : UnitId
  /-- The offset of the instruction. -/
  offset : Nat
  /-- The place in the source. -/
  location : Location
  deriving DecidableEq, Repr

/-- A breakpoint that is set. -/
structure Breakpoint where
  /-- Its number. -/
  id : Nat
  /-- The unit that it is in. -/
  unit : UnitId
  /-- The offset of its instruction. -/
  offset : Nat
  deriving DecidableEq, Repr

/-- The known units, and the breakpoints by their numbers and by their places. -/
structure Breakpoints where
  /-- The units of each path, in ascending order. -/
  files : List (String × List UnitId) := []
  /-- The breakpoints, the newest first. -/
  points : List Breakpoint := []
  /-- The number of the breakpoint at a place. -/
  byPlace : List ((UnitId × Nat) × Nat) := []
  /-- The last number that was given to a breakpoint. -/
  lastId : Nat := 0
  deriving DecidableEq, Repr

namespace Breakpoints

/-- No units and no breakpoints. -/
def initial : Breakpoints := {}

/-- The number that stands for a breakpoint that could not be set. -/
def unresolvedId : Int := -1

/-- Puts a unit into an ascending list that may have it already. -/
def insertUnit (unit : UnitId) : List UnitId → List UnitId
  | [] => [unit]
  | u :: rest =>
    if unit.number < u.number then unit :: u :: rest
    else if unit = u then u :: rest
    else u :: insertUnit unit rest

/-- Adds a unit to those of a path. -/
def insertFile (url : String) (unit : UnitId) :
    List (String × List UnitId) → List (String × List UnitId)
  | [] => [(url, [unit])]
  | (path, units) :: rest =>
    if path = url then (path, insertUnit unit units) :: rest
    else (path, units) :: insertFile url unit rest

/-- The units of a path. -/
def unitsOf? (b : Breakpoints) (path : String) : Option (List UnitId) :=
  (b.files.find? fun entry => entry.1 == path).map Prod.snd

/-- Whether any unit of the path is known. -/
def knowsFile (b : Breakpoints) (path : String) : Bool := (b.unitsOf? path).isSome

/-- The number of the breakpoint at a place. -/
def idAt (b : Breakpoints) (unit : UnitId) (offset : Nat) : Option Nat :=
  (b.byPlace.find? fun entry => entry.1 == (unit, offset)).map Prod.snd

section

variable {σ : Type} [Engine σ]

/-- Makes a unit known. -/
def registerUnit (engine : σ) (b : Breakpoints) (unit : UnitId) : Breakpoints :=
  match Engine.unitInfo? engine unit with
  | some info => { b with files := insertFile info.url unit b.files }
  | none => b

/-- Makes all units known that the engine has at the top. -/
def registerAll (b : Breakpoints) (engine : σ) : Breakpoints :=
  (Engine.topUnits engine).foldl (registerUnit engine) b

/-- The places in one unit on a line, at a column or after it. -/
def candidatesOf (engine : σ) (line column : Nat) (unit : UnitId) : List Candidate :=
  (Engine.breakpointOffsets engine unit line column).filterMap fun offset =>
    (Engine.location? engine unit offset).map fun location => ⟨unit, offset, location⟩

/-- The places in a unit and in those nested in it, down to a depth. -/
def candidatesIn (engine : σ) (line column : Nat) : (depth : Nat) → UnitId → List Candidate
  | 0, _ => []
  | depth + 1, unit =>
    candidatesOf engine line column unit ++
      (Engine.childUnits engine unit).flatMap (candidatesIn engine line column depth)

/-- The places in the units of a path on a line, at a column or after it. -/
def candidates (b : Breakpoints) (engine : σ) (path : String) (line column : Nat) :
    List Candidate :=
  ((b.unitsOf? path).getD []).flatMap
    (candidatesIn engine line column (Engine.unitCount engine + 1))

/-- The place at exactly a line and a column. -/
def resolve (b : Breakpoints) (engine : σ) (path : String) (line column : Nat) :
    Option Candidate :=
  (b.candidates engine path line column).find? fun c => c.location == ⟨line, column⟩

/-- Sets a breakpoint where a statement starts at exactly the line and column, and tells its number.
A place that has a breakpoint keeps it. -/
def set (b : Breakpoints) (engine : σ) (path : String) (line column : Nat) :
    Breakpoints × σ × Int :=
  match b.resolve engine path line column with
  | none => (b, engine, unresolvedId)
  | some c =>
    match b.idAt c.unit c.offset with
    | some id => (b, engine, id)
    | none =>
      let id := b.lastId + 1
      ({ b with
          points := ⟨id, c.unit, c.offset⟩ :: b.points
          byPlace := ((c.unit, c.offset), id) :: b.byPlace
          lastId := id },
        Engine.setBreakpoint engine c.unit c.offset, id)

/-- Removes the breakpoint of a number, and tells whether there was one. -/
def remove (b : Breakpoints) (engine : σ) (id : Int) : Breakpoints × σ × Bool :=
  match b.points.find? fun p => (p.id : Int) == id with
  | none => (b, engine, false)
  | some p =>
    ({ b with
        points := b.points.filter fun q => q.id != p.id
        byPlace := b.byPlace.filter fun entry => entry.1 != (p.unit, p.offset) },
      Engine.clearBreakpoint engine p.unit p.offset, true)

theorem remove_false_iff (b : Breakpoints) (engine : σ) (id : Int) :
    (b.remove engine id).2.2 = false ↔ ∀ p ∈ b.points, (p.id : Int) ≠ id := by
  unfold remove
  split
  · rename_i h
    simpa using h
  · rename_i p h
    have hp := List.find?_some h
    have hm := List.mem_of_find?_eq_some h
    simp only [Bool.true_eq_false, false_iff, ne_eq, Classical.not_forall]
    exact ⟨p, hm, by simpa using hp⟩

theorem idAt_set {b : Breakpoints} {engine : σ} {path : String} {line column : Nat}
    {c : Candidate} (h : b.resolve engine path line column = some c) :
    ((b.set engine path line column).1.idAt c.unit c.offset : Option Nat).map Int.ofNat =
      some (b.set engine path line column).2.2 := by
  unfold set
  simp only [h]
  cases hid : b.idAt c.unit c.offset with
  | some id => simp [hid]
  | none => simp [idAt]

end

end Breakpoints

end ScriptDebugger.Debug
