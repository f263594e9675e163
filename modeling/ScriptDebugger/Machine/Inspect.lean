import ScriptDebugger.Machine.Step
/-!
# The machine as an engine

What a debugger sees of a machine, and what it may change in it. Choosing another program works
only before the start, and only if the new program can be loaded; otherwise all stays as it is.
-/

namespace ScriptDebugger.Machine

open Source (Instruction)

/-- The offsets of the instructions that begin a statement on a line, at a column or after it;
`previous` is the location of the instruction before, and `offset` the place of the first one. -/
def statementOffsets (line minColumn : Nat) (previous : Option Location) (offset : Nat) :
    List Instruction → List Nat
  | [] => []
  | i :: rest =>
    let others := statementOffsets line minColumn (some i.location) (offset + 1) rest
    if previous ≠ some i.location ∧ i.location.line = line ∧ minColumn ≤ i.location.column then
      offset :: others
    else others

namespace State

/-- What can be seen of a frame; `stack` is the part of the stack from that frame down. -/
def frameInfo? (p : Program) (frame : FrameId) : (stack : List Activation) → Option FrameInfo
  | [] => none
  | a :: below =>
    if a.id = frame then
      some
        { unit := some a.unit
          offset := a.pc
          kind := if (p.unit? a.unit).any (·.parent.isNone) then "module" else "call"
          callee := a.callee
          this := some a.this
          older := below.head?.map (·.id)
          olderSaved := none }
    else frameInfo? p frame below

/-- Gives a new value to a binding of a frame. -/
def setBinding (s : State) (frame : FrameId) (name : String) (value : Value) :
    Except EngineError State :=
  match s.activation? frame with
  | none => .error (.staleFrame frame)
  | some a =>
    match update? name value a.bindings with
    | none => .error (.unknownBinding name)
    | some bindings =>
      .ok { s with stack := s.stack.map fun b => if b.id = frame then { b with bindings } else b }

/-- Chooses the program to run. -/
def selectProgram (s : State) (url : String) : State :=
  if url = s.program.url ∨ s.started then s
  else
    match Program.load s.library url with
    | .ok program => { s with program, breakpoints := [] }
    | .error _ => s

end State

instance : Engine State where
  advance := State.advance
  topUnits s := if s.program.units.isEmpty then [] else [⟨0⟩]
  unitInfo? s id :=
    (s.program.unit? id).map fun unit => ⟨s.program.url, unit.start, unit.lineCount⟩
  childUnits s id := ((s.program.unit? id).map (·.children)).getD []
  unitCount s := s.program.units.length
  breakpointOffsets s id line minColumn :=
    ((s.program.unit? id).map fun unit =>
      statementOffsets line minColumn none 0 unit.code).getD []
  location? s id offset := (s.program.instruction? id offset).map (·.location)
  setBreakpoint s id offset :=
    if s.hasBreakpoint id offset then s
    else { s with breakpoints := (id, offset) :: s.breakpoints }
  clearBreakpoint s id offset :=
    { s with breakpoints := s.breakpoints.filter fun place => place != (id, offset) }
  frame? s frame := State.frameInfo? s.program frame s.stack
  bindingNames s frame := ((s.activation? frame).map fun a => a.bindings.map Prod.fst).getD []
  binding? s frame name := (s.activation? frame).bind fun a => a.binding? name
  setBinding := State.setBinding
  globalObject _ _ := Heap.globalId
  objectClass? s id := (s.heap.get? id).map (·.className)
  propertyNames s id := ((s.heap.get? id).map fun o => o.properties.map Prod.fst).getD []
  property? s id name := s.heap.property? id name
  setProperty s id name value :=
    (s.heap.setProperty id name value).map fun heap => { s with heap }
  importValue s json :=
    let (heap, value) := s.heap.importJson json
    ({ s with heap }, value)
  selectProgram := State.selectProgram

namespace State

/-- Runs the program to its end, past any breakpoint, in at most `fuel` small steps. -/
def runWithin : (fuel : Nat) → State → Option State
  | 0, _ => none
  | fuel + 1, s =>
    match advance .none s with
    | (s, some .finished) => some s
    | (s, _) => runWithin fuel s

/-- Running `s` to its end, past any breakpoint, leaves `t`. -/
def Runs (s t : State) : Prop := ∃ fuel, runWithin fuel s = some t

end State

end ScriptDebugger.Machine
