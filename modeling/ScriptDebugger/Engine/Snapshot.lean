import ScriptDebugger.Engine.Interface
/-!
# Snapshots

A snapshot of an engine at rest: tables say what a debugger sees of its units, frames and objects.
Changes are checked and recorded in a log, and leave the tables as they are; nothing runs. The
debugger can be held against a snapshot of any engine, whatever its frames look like.
-/

namespace ScriptDebugger

namespace Snapshot

/-- A code unit of a snapshot. -/
structure Unit where
  /-- The source range; native code has none. -/
  info : Option UnitInfo
  /-- The units nested in it. -/
  children : List UnitId
  /-- The place of each offset in the source. -/
  locations : List Location

/-- A frame of a snapshot. -/
structure Frame where
  /-- What is seen of the frame. -/
  info : FrameInfo
  /-- The names of its bindings. -/
  names : List String
  /-- The contents of bindings. -/
  values : List (String × Value)

/-- An object of a snapshot. -/
structure Object where
  /-- The class. -/
  className : Option String
  /-- The names of its properties. -/
  names : List String
  /-- The contents of properties. -/
  values : List (String × Value)

/-- A change that was asked for. -/
inductive Change
  | binding (frame : FrameId) (name : String) (value : Value)
  | property (object : ObjectId) (name : String) (value : Value)
  | setBreakpoint (unit : UnitId) (offset : Nat)
  | clearBreakpoint (unit : UnitId) (offset : Nat)

/-- The entry of a key in a table. -/
def find {α β : Type} [BEq α] (key : α) (table : List (α × β)) : Option β :=
  (table.find? fun entry => entry.1 == key).map Prod.snd

/-- The offsets of the places on a line, at a column or after it. -/
def offsetsOn (line minColumn : Nat) (offset : Nat) : List Location → List Nat
  | [] => []
  | l :: rest =>
    if l.line = line ∧ minColumn ≤ l.column then
      offset :: offsetsOn line minColumn (offset + 1) rest
    else offsetsOn line minColumn (offset + 1) rest

end Snapshot

/-- An engine at rest. -/
structure Snapshot where
  /-- The units that are not nested in another one. -/
  topUnits : List UnitId
  /-- The global object. -/
  globalId : ObjectId
  /-- All units. -/
  units : List (UnitId × Snapshot.Unit)
  /-- The frames. -/
  frames : List (FrameId × Snapshot.Frame)
  /-- The objects. -/
  objects : List (ObjectId × Snapshot.Object)
  /-- The changes that were asked for, the oldest first. -/
  log : List Snapshot.Change := []

namespace Snapshot

/-- Records a change. -/
def record (s : Snapshot) (change : Change) : Snapshot := { s with log := s.log ++ [change] }

/-- Texts and numbers keep their value; of anything else a snapshot knows no more than `null`. -/
def importValue : Json → Value
  | .string s => .string s
  | .number n => .number n.toFloat
  | _ => .null

instance : Engine Snapshot where
  advance _ s := (s, some .finished)
  topUnits := Snapshot.topUnits
  unitInfo? s id := (find id s.units).bind (·.info)
  childUnits s id := ((find id s.units).map (·.children)).getD []
  unitCount s := s.units.length
  breakpointOffsets s id line minColumn :=
    ((find id s.units).map fun u => offsetsOn line minColumn 0 u.locations).getD []
  location? s id offset := (find id s.units).bind fun u => u.locations[offset]?
  setBreakpoint s id offset := s.record (.setBreakpoint id offset)
  clearBreakpoint s id offset := s.record (.clearBreakpoint id offset)
  frame? s id := (find id s.frames).map (·.info)
  bindingNames s id := ((find id s.frames).map (·.names)).getD []
  binding? s id name := (find id s.frames).bind fun f => find name f.values
  setBinding s id name value :=
    match find id s.frames with
    | none => .error (.staleFrame id)
    | some f =>
      if f.names.contains name then .ok (s.record (.binding id name value))
      else .error (.unknownBinding name)
  globalObject s _ := s.globalId
  objectClass? s id := (find id s.objects).bind (·.className)
  propertyNames s id := ((find id s.objects).map (·.names)).getD []
  property? s id name := (find id s.objects).bind fun o => find name o.values
  setProperty s id name value :=
    match find id s.objects with
    | none => .error (.unknownObject id)
    | some _ => .ok (s.record (.property id name value))
  importValue s json := (s, importValue json)
  selectProgram s _ := s

end Snapshot

end ScriptDebugger
