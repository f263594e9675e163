import ScriptDebugger.Machine.Heap
import ScriptDebugger.Machine.Program
/-!
# States of the machine

The stack of frames, the queue of deferred calls, the heap, the breakpoints and the output of a
program. A frame records how far its current instruction boundary has been reported, so that a run
can be left at any event and taken up again.
-/

namespace ScriptDebugger.Machine

/-- A frame on the stack. -/
structure Activation where
  /-- The frame's number. -/
  id : FrameId
  /-- The unit that runs. -/
  unit : UnitId
  /-- The offset of the next instruction. -/
  pc : Nat
  /-- The bindings, in order. -/
  bindings : List (String × Value)
  /-- The object that the frame works for. -/
  this : Value
  /-- The name under which the function was called. -/
  callee : Option String
  /-- The value between the two instructions of an assignment. -/
  accumulator : Value := .undefined
  /-- Whether the entry of the frame is over. -/
  entered : Bool := false
  /-- Whether the boundary before the next instruction was considered for events. -/
  boundarySeen : Bool := false
  /-- Whether the end of the frame was reported. -/
  popReported : Bool := false
  /-- Whether a call is under way; `pc` is then the offset of the call. -/
  awaitingReturn : Bool := false

/-- The content of a binding. -/
def Activation.binding? (a : Activation) (name : String) : Option Value := lookup name a.bindings

/-- A call that waits for the module's end. -/
structure DeferredCall where
  /-- The unit to run. -/
  unit : UnitId
  /-- The name under which it was deferred. -/
  name : String
  /-- The values of the arguments. -/
  args : List Value

/-- A machine with a program. -/
structure State where
  /-- The program. -/
  program : Program
  /-- The source text at a path, for the choice of another program. -/
  library : String → Option String
  /-- The frames, the running one first. -/
  stack : List Activation
  /-- The deferred calls, the oldest first. -/
  deferred : List DeferredCall
  /-- The objects. -/
  heap : Heap
  /-- The places with a breakpoint. -/
  breakpoints : List (UnitId × Nat)
  /-- The number that the next frame gets. -/
  nextFrame : Nat
  /-- Whether the program was started. -/
  started : Bool
  /-- The lines written so far. -/
  output : List String

/-- Why a program cannot be loaded. -/
inductive LoadError
  /-- There is no readable text at the path. -/
  | unreadable (url : String)
  /-- The text is no program. -/
  | faulty (url : String) (fault : Source.Fault)
  deriving DecidableEq

/-- The message for the user. -/
def LoadError.message : LoadError → String
  | .unreadable url => "failed to read program " ++ url
  | .faulty url fault => "failed to compile " ++ url ++ ": " ++ fault.message

/-- The program that a text makes. -/
def Program.ofSource (url source : String) : Except LoadError Program :=
  match Source.compile source with
  | .ok block => .ok (Program.ofBlock url block)
  | .error fault => .error (.faulty url fault)

/-- The program at a path of a library. -/
def Program.load (library : String → Option String) (url : String) : Except LoadError Program :=
  match library url with
  | some source => Program.ofSource url source
  | none => .error (.unreadable url)

namespace State

/-- A machine that has not started its program. -/
def initial (library : String → Option String) (program : Program) : State :=
  { program, library, stack := [], deferred := [], heap := Heap.initial, breakpoints := [],
    nextFrame := 1, started := false, output := [] }

/-- A machine with the program of a text. -/
def ofSource (library : String → Option String) (url source : String) : Except LoadError State :=
  (Program.ofSource url source).map (initial library)

/-- A machine with the program at a path of a library. -/
def load (library : String → Option String) (url : String) : Except LoadError State :=
  (Program.load library url).map (initial library)

/-- Whether the program has run to its end. -/
def isFinished (s : State) : Bool := s.started && s.stack.isEmpty && s.deferred.isEmpty

/-- The frame of a number, if it is on the stack. -/
def activation? (s : State) (frame : FrameId) : Option Activation :=
  s.stack.find? fun a => a.id == frame

end State

end ScriptDebugger.Machine
