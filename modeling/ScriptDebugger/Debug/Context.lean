import ScriptDebugger.Debug.Breakpoints
import ScriptDebugger.Debug.Handles
import ScriptDebugger.Debug.Stepper
import ScriptDebugger.Wire.Message
/-!
# The debugger beside a program

Stepping, breakpoints and references together, and the questions that the front end may ask while
the program is paused: the frames of the stack, the scopes of a frame, the variables behind a
reference. A variable can be given a new value; what is reported then is read back.
-/

namespace ScriptDebugger.Debug

open Wire (StackFrame Scope Variable)

/-- Why a question has no answer. -/
inductive QueryError
  /-- The program runs. -/
  | notPaused
  /-- The stack has fewer frames. -/
  | frameNotFound (index : Nat)
  /-- The frame stands too deep for a reference. -/
  | frameIndexOutOfRange (index : Nat)
  /-- The reference means nothing now. -/
  | unknownHandle (reference : Nat)
  /-- The engine refused. -/
  | engine (error : EngineError)
  deriving DecidableEq, Repr

/-- The message for the user. -/
def QueryError.message : QueryError → String
  | .notPaused => "the program is not paused"
  | .frameNotFound index => "no frame at index " ++ toString index
  | .frameIndexOutOfRange index =>
    "frame index " ++ toString index ++ " exceeds the frame handle range"
  | .unknownHandle reference => "unknown variables reference " ++ toString reference
  | .engine error => error.message

/-- The debugger's own state. -/
structure Context where
  /-- Stepping. -/
  stepper : Stepper := .initial
  /-- Breakpoints. -/
  breakpoints : Breakpoints := .initial
  /-- References. -/
  handles : Handles := .initial
  deriving DecidableEq, Repr

namespace Context

/-- The state before the program runs. -/
def initial : Context := {}

/-- The hooks that the engine runs under. -/
def hooks (c : Context) : Hooks := c.stepper.hooks

/-- The paused frame. -/
def currentFrame (c : Context) : Except QueryError FrameId :=
  match c.stepper.paused with
  | some frame => .ok frame
  | none => .error .notPaused

/-- Ends the pause. References to objects are over with it. -/
def resume (c : Context) (mode : RunMode) : Context :=
  { c with handles := c.handles.clear, stepper := c.stepper.resume mode }

/-- The text, the type and the reference that a value is shown with. -/
def describeValue {σ : Type} [Engine σ] (engine : σ) (handles : Handles) :
    Value → Handles × String × String × Nat
  | .undefined => (handles, "undefined", "Undefined", 0)
  | .null => (handles, "null", "Null", 0)
  | .bool b => (handles, if b then "true" else "false", "Boolean", 0)
  | .number x => (handles, Value.numberText x, "Number", 0)
  | .string s => (handles, "\"" ++ s ++ "\"", "String", 0)
  | .uninitialized => (handles, "<uninitialized>", "Uninitialized Binding", 0)
  | .object id =>
    let className := (Engine.objectClass? engine id).getD "Object"
    let (handles, reference) := handles.allocate id
    (handles, "[object " ++ className ++ "]", className, reference)

/-- How a named value is shown. -/
def describe {σ : Type} [Engine σ] (engine : σ) (handles : Handles) (name : String)
    (value : Value) : Handles × Variable :=
  let (handles, text, typeName, reference) := describeValue engine handles value
  (handles, ⟨name, text, typeName, reference⟩)

/-- How named values are shown, in order. -/
def describeAll {σ : Type} [Engine σ] (engine : σ) (handles : Handles) :
    List (String × Value) → Handles × List Variable
  | [] => (handles, [])
  | (name, value) :: rest =>
    let (handles, v) := describe engine handles name value
    let (handles, vs) := describeAll engine handles rest
    (handles, v :: vs)

section

variable {σ : Type} [Engine σ]

/-- Takes an event of the engine, and tells whether it is a stop. A pause begins with the units of
the engine known and with the global object of the paused frame as the only object that has a
reference. -/
def onEvent (c : Context) (engine : σ) (event : Event) : Context × Option Stop :=
  match c.stepper.onEvent engine event with
  | (stepper, none) => ({ c with stepper }, none)
  | (stepper, some stop) =>
    let handles := c.handles.clear
    let handles :=
      match (Engine.frame? engine stop.frame).bind (·.unit) with
      | some unit => handles.anchorGlobal (Engine.globalObject engine unit)
      | none => handles
    ({ stepper, handles, breakpoints := c.breakpoints.registerAll engine }, some stop)

/-- The number of the breakpoint that a stop is for. -/
def breakpointId (c : Context) (engine : σ) (stop : Stop) : Option Nat :=
  match stop.reason with
  | .breakpoint offset =>
    ((Engine.frame? engine stop.frame).bind (·.unit)).bind fun unit =>
      c.breakpoints.idAt unit offset
  | _ => none

/-- The frame that is `steps` callers below a frame. -/
def callerAt (engine : σ) : (steps : Nat) → FrameId → Option FrameId
  | 0, frame => some frame
  | steps + 1, frame =>
    ((Engine.frame? engine frame).bind FrameInfo.caller).bind (callerAt engine steps)

/-- The frame that is `index` callers below the paused one. -/
def findFrame (c : Context) (engine : σ) (index : Nat) : Except QueryError FrameId := do
  let frame ← c.currentFrame
  match callerAt engine index frame with
  | some found => .ok found
  | none => .error (.frameNotFound index)

/-- How a frame is shown. -/
def showFrame (engine : σ) (id : Nat) (info : FrameInfo) : StackFrame :=
  let location := info.unit.bind fun unit => Engine.location? engine unit info.offset
  { id
    name := info.callee.getD info.kind
    source := (info.unit.bind (Engine.unitInfo? engine)).map (·.url)
    line := (location.map (·.line)).getD 0
    column := (location.map (·.column)).getD 0 }

/-- At most `count` frames, from `frame` along the callers. -/
def framesFrom (engine : σ) (id : Nat) : (count : Nat) → FrameId → Except QueryError (List StackFrame)
  | 0, _ => .ok []
  | count + 1, frame =>
    match Engine.frame? engine frame with
    | none => .error (.frameNotFound id)
    | some info =>
      match info.caller with
      | none => .ok [showFrame engine id info]
      | some caller => do
        let rest ← framesFrom engine (id + 1) count caller
        .ok (showFrame engine id info :: rest)

/-- At most `count` frames of the stack, the first one `index` callers below the paused one. -/
def stack (c : Context) (engine : σ) (index count : Nat) :
    Except QueryError (List StackFrame) := do
  let frame ← c.findFrame engine index
  framesFrom engine index count frame

/-- The scopes of a frame: its bindings, with the range of its code unit, and the globals. -/
def scopes (c : Context) (engine : σ) (index : Nat) : Except QueryError (List Scope) := do
  let frame ← c.findFrame engine index
  match Handles.frameHandle index with
  | none => .error (.frameIndexOutOfRange index)
  | some reference =>
    let info := ((Engine.frame? engine frame).bind (·.unit)).bind (Engine.unitInfo? engine)
    .ok
      [{ name := "Locals", presentationHint := "locals", variablesReference := reference
         expensive := false
         source := info.map (·.url)
         line := info.map (·.start.line)
         column := info.map (·.start.column)
         endLine := info.map fun i => i.start.line + i.lineCount },
       { name := "Globals", presentationHint := "globals", variablesReference := globalReference
         expensive := true, source := none, line := none, column := none, endLine := none }]

/-- The bindings of a frame with their contents, and the object that it works for if that counts as
true. -/
def frameEntries (engine : σ) (frame : FrameId) : List (String × Value) :=
  let entries := (Engine.bindingNames engine frame).map fun name =>
    (name, (Engine.binding? engine frame name).getD .undefined)
  match (Engine.frame? engine frame).bind (·.this) with
  | some this => if this.isTruthy then entries ++ [("<this>", this)] else entries
  | none => entries

/-- The properties of an object with their contents. -/
def objectEntries (engine : σ) (id : ObjectId) : List (String × Value) :=
  (Engine.propertyNames engine id).map fun name =>
    (name, (Engine.property? engine id name).getD .undefined)

/-- What a reference means during the pause. -/
def target (c : Context) (reference : Nat) : Except QueryError Target := do
  let _ ← c.currentFrame
  match c.handles.resolve reference with
  | some target => .ok target
  | none => .error (.unknownHandle reference)

/-- The variables behind a reference. -/
def variablesBehind (c : Context) (engine : σ) (reference : Nat) :
    Except QueryError (Context × List Variable) := do
  let entries ←
    match ← c.target reference with
    | .object id => .ok (objectEntries engine id)
    | .frame index => (c.findFrame engine index).map (frameEntries engine)
  let (handles, items) := describeAll engine c.handles entries
  .ok ({ c with handles }, items)

/-- A property as it reads back. -/
def readProperty (c : Context) (engine : σ) (id : ObjectId) (name : String) : Context × Variable :=
  let (handles, v) :=
    describe engine c.handles name ((Engine.property? engine id name).getD .undefined)
  ({ c with handles }, v)

/-- A binding as it reads back. -/
def readBinding (c : Context) (engine : σ) (frame : FrameId) (name : String) : Context × Variable :=
  let (handles, v) :=
    describe engine c.handles name ((Engine.binding? engine frame name).getD .undefined)
  ({ c with handles }, v)

/-- Gives a variable behind a reference the value of a document. The value is built before it is
assigned, so a refused assignment may leave new objects behind that nothing refers to. -/
def setVariable (c : Context) (engine : σ) (reference : Nat) (name : String) (value : Json) :
    σ × Except QueryError (Context × Variable) :=
  match c.target reference with
  | .error e => (engine, .error e)
  | .ok (.object id) =>
    let (engine, value) := Engine.importValue engine value
    match Engine.setProperty engine id name value with
    | .error e => (engine, .error (.engine e))
    | .ok engine => (engine, .ok (c.readProperty engine id name))
  | .ok (.frame index) =>
    match c.findFrame engine index with
    | .error e => (engine, .error e)
    | .ok frame =>
      let (engine, value) := Engine.importValue engine value
      match Engine.setBinding engine frame name value with
      | .error e => (engine, .error (.engine e))
      | .ok engine => (engine, .ok (c.readBinding engine frame name))

/-- Runs the program until a stop, or to its end, in at most `fuel` small steps. -/
def runWithin : (fuel : Nat) → Context → σ → Option (Context × σ × Option Stop)
  | 0, _, _ => none
  | fuel + 1, c, engine =>
    match Engine.advance c.hooks engine with
    | (engine, none) => runWithin fuel c engine
    | (engine, some .finished) => some (c, engine, none)
    | (engine, some event) =>
      match c.onEvent engine event with
      | (c, some stop) => some (c, engine, some stop)
      | (c, none) => runWithin fuel c engine

end

end Context

end ScriptDebugger.Debug
