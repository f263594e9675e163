import ScriptDebugger.Machine.State
/-!
# Running

One small step of the machine does one of these: it starts the program, starts a deferred call,
passes the entry of a frame, considers the boundary before an instruction, executes an instruction,
reports the end of a frame, or takes the frame off the stack. The hooks decide which of them stop
the run.

Reading a name that has no value yet gives `undefined`; a name that is no binding of the running
frame means a property of the global object. An assignment with `set` to a name that is neither
makes a new binding of the frame.
-/

namespace ScriptDebugger.Machine

open Source (Binding Operand Op)

namespace Activation

/-- Moves to the next instruction, whose boundary is new. -/
def next (a : Activation) : Activation := { a with pc := a.pc + 1, boundarySeen := false }

/-- The bindings that a frame starts with. Missing arguments are `undefined`, superfluous ones are
dropped. -/
def initialBindings (params declared : List String) (args : List Value) : List (String × Value) :=
  let bound := params.zip (args ++ List.replicate params.length .undefined)
  declared.foldl (fun bs name => if bs.any (·.1 == name) then bs else bs ++ [(name, .uninitialized)])
    bound

end Activation

namespace State

/-- Starts a frame for a unit; a number without a unit changes nothing. -/
def push (s : State) (unit : UnitId) (args : List Value) (callee : Option String) : State :=
  match s.program.unit? unit with
  | none => s
  | some code =>
    { s with
      nextFrame := s.nextFrame + 1
      stack :=
        { id := ⟨s.nextFrame⟩, unit, pc := 0
          bindings := Activation.initialBindings code.params code.declared args
          this := if code.parent.isNone then .object Heap.globalId else .undefined
          callee } :: s.stack }

/-- The frame that a call returns to goes on behind the call. -/
def resumeCaller : List Activation → List Activation
  | [] => []
  | caller :: rest =>
    if caller.awaitingReturn then { caller.next with awaitingReturn := false } :: rest
    else caller :: rest

/-- Takes the running frame off the stack. -/
def pop (s : State) : State := { s with stack := resumeCaller s.stack.tail }

/-- The content of a name as the running frame sees it. -/
def read (heap : Heap) (top : Activation) (name : String) : Value :=
  match top.binding? name with
  | some .uninitialized => .undefined
  | some value => value
  | none => (heap.property? Heap.globalId name).getD .undefined

/-- The value of an operand; a literal is built anew each time. -/
def evaluate (heap : Heap) (top : Activation) : Operand → Heap × Value
  | .literal json => heap.importJson json
  | .name name => (heap, read heap top name)

/-- The values of operands, from left to right. -/
def evaluateAll (heap : Heap) (top : Activation) : List Operand → Heap × List Value
  | [] => (heap, [])
  | operand :: rest =>
    let (heap, value) := evaluate heap top operand
    let (heap, values) := evaluateAll heap top rest
    (heap, value :: values)

/-- Assigns to a name: the bindings of the running frame, or else the global object, change. -/
def store (heap : Heap) (bindings : List (String × Value)) (binding : Binding) (name : String)
    (value : Value) : Heap × List (String × Value) :=
  match binding with
  | .globalProperty => (heap.defineProperty Heap.globalId name value, bindings)
  | .declare => (heap, define name value bindings)
  | .assign =>
    match update? name value bindings with
    | some bindings => (heap, bindings)
    | none =>
      if (heap.property? Heap.globalId name).isSome then
        (heap.defineProperty Heap.globalId name value, bindings)
      else (heap, bindings ++ [(name, value)])

/-- The text that `print` writes for a value. -/
def display (heap : Heap) : Value → String
  | .undefined | .uninitialized => "undefined"
  | .null => "null"
  | .bool true => "true"
  | .bool false => "false"
  | .number x => Value.numberText x
  | .string text => text
  | .object id => "[object " ++ ((heap.get? id).map (·.className)).getD "" ++ "]"

/-- Carries out an operation of the running frame `top`, which stands above `below`. A call or a
deferral of an unknown function does nothing, and does not look at the arguments. -/
def perform (s : State) (top : Activation) (below : List Activation) : Op → State
  | .load operand =>
    let (heap, value) := evaluate s.heap top operand
    { s with heap, stack := { top.next with accumulator := value } :: below }
  | .store binding name =>
    let (heap, bindings) := store s.heap top.bindings binding name top.accumulator
    { s with heap, stack := { top.next with bindings, accumulator := .undefined } :: below }
  | .print operand =>
    let (heap, value) := evaluate s.heap top operand
    { s with heap, output := s.output ++ [display heap value], stack := top.next :: below }
  | .call name args =>
    match s.program.lookupFunction top.unit name with
    | some callee =>
      let (heap, values) := evaluateAll s.heap top args
      push { s with heap, stack := { top with awaitingReturn := true } :: below } callee values
        (some name)
    | none => { s with stack := top.next :: below }
  | .defer name args =>
    match s.program.lookupFunction top.unit name with
    | some callee =>
      let (heap, values) := evaluateAll s.heap top args
      { s with
        heap, deferred := s.deferred ++ [⟨callee, name, values⟩], stack := top.next :: below }
    | none => { s with stack := top.next :: below }
  | .ret =>
    { s with
      stack := { top with pc := s.program.codeLength top.unit, boundarySeen := false } :: below }

/-- Whether a place has a breakpoint. -/
def hasBreakpoint (s : State) (unit : UnitId) (offset : Nat) : Bool :=
  s.breakpoints.contains (unit, offset)

/-- Starts the program with a frame for the module. -/
def start (s : State) : State := push { s with started := true } ⟨0⟩ [] none

/-- A step where no frame is on the stack: the oldest deferred call starts, or all is done. -/
def advanceIdle (s : State) : State × Option Event :=
  match s.deferred with
  | [] => (s, some .finished)
  | call :: rest => (push { s with deferred := rest } call.unit call.args (some call.name), none)

/-- A step of the running frame. -/
def advanceFrame (hooks : Hooks) (s : State) (top : Activation) (below : List Activation) :
    State × Option Event :=
  if !top.entered then
    ({ s with stack := { top with entered := true } :: below },
      if hooks.onEnter then some (.enterFrame top.id) else none)
  else
    match s.program.instruction? top.unit top.pc with
    | none =>
      if !top.popReported && hooks.action top.id == some .pop then
        ({ s with stack := { top with popReported := true } :: below }, some (.pop top.id))
      else (s.pop, none)
    | some instruction =>
      if !top.boundarySeen then
        ({ s with stack := { top with boundarySeen := true } :: below },
          if s.hasBreakpoint top.unit top.pc then some (.breakpoint top.id top.pc)
          else if hooks.action top.id == some .step then some (.step top.id)
          else none)
      else (s.perform top below instruction.op, none)

/-- One small step. -/
def advance (hooks : Hooks) (s : State) : State × Option Event :=
  if !s.started then (s.start, none)
  else
    match s.stack with
    | [] => s.advanceIdle
    | top :: below => advanceFrame hooks s top below

end State

end ScriptDebugger.Machine
