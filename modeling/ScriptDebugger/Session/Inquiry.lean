import ScriptDebugger.Session.Failure
import ScriptDebugger.Session.Mapper
import ScriptDebugger.Json.Parser
import ScriptDebugger.Wire.Message
/-!
# Inquiries

An inquiry is one request to the agent with all that belongs to it: the message, whether it waits
for its turn, the kind of reply it expects, what it reads from that reply, and the notice that its
success raises. Positions are the user's on one side and the agent's on the other.

## Main results

* `interpret_error` — a reply that says that the agent refused is that refusal, for every inquiry.
-/

namespace ScriptDebugger.Session

open Wire (DebuggerMessage HostMessage StackFrame Scope Variable)

/-- A request whose answer is an `α`. -/
structure Inquiry (α : Type) where
  /-- What is sent. -/
  message : HostMessage
  /-- Whether the request waits while another one is on its way. -/
  waitsIdle : Bool
  /-- The kind of the reply. -/
  expected : String
  /-- What the reply says, if it is of that kind. -/
  read? : DebuggerMessage → Option α
  /-- The notice that the answer is worth. -/
  notice : α → Option Notice := fun _ => none

/-- What a reply means for an inquiry. -/
def Inquiry.interpret {α : Type} (q : Inquiry α) : DebuggerMessage → Except Failure α
  | .error message => .error (.remote message)
  | reply =>
    match q.read? reply with
    | some answer => .ok answer
    | none => .error (.unexpectedReply q.expected reply.kind)

theorem Inquiry.interpret_error {α : Type} (q : Inquiry α) (message : String) :
    q.interpret (.error message) = .error (.remote message) := rfl

/-- A breakpoint as the user sees it. -/
structure PlacedBreakpoint where
  /-- Its identifier. -/
  id : Int
  /-- Where it stands, or was asked for. -/
  position : Position
  deriving DecidableEq, Repr

/-- The identifier of a breakpoint that no statement matches. -/
def unresolvedId : Int := -1

/-- Whether a breakpoint stands at a statement. -/
def PlacedBreakpoint.isVerified (b : PlacedBreakpoint) : Bool := b.id != unresolvedId

/-! ## The inquiries -/

/-- Loads a program; the answer is the path of the program that is loaded. -/
def loadProgram (path : String) : Inquiry String where
  message := .loadProgram path
  waitsIdle := false
  expected := "programLoaded"
  read?
    | .programLoaded path => some path
    | _ => none

/-- Lets the program go on until it stops. -/
def resume (message : HostMessage) : Inquiry StopCause where
  message
  waitsIdle := false
  expected := "stopOnStep"
  read?
    | .stopOnStep => some .step
    | .stopOnBreakpoint id => some (.breakpoint id)
    | _ => none
  notice cause := some (.stopped cause)

/-- A frame of the agent as the user sees it. -/
def externalFrame (f : Frontier) (frame : StackFrame) : StackFrame :=
  match frame.source with
  | none => { frame with column := Frontier.successor frame.column }
  | some path =>
    let p := f.toExternal ⟨path, frame.line, frame.column⟩
    { frame with source := some p.path, line := p.line, column := p.column }

/-- At most `count` frames, from the one that has `index` frames above it. -/
def stack (f : Frontier) (index count : Nat) : Inquiry (List StackFrame) where
  message := .getStack index count
  waitsIdle := false
  expected := "stack"
  read?
    | .stack frames => some (frames.map (externalFrame f))
    | _ => none

/-- A group of variables of the agent as the user sees it. -/
def externalScope (f : Frontier) (s : Scope) : Scope :=
  match s.source, s.line with
  | some path, some line =>
    let start := f.toExternal ⟨path, line, s.column.getD 0⟩
    { s with
      source := some start.path
      line := some start.line
      column := some start.column
      endLine := s.endLine.map fun last => (f.toExternal ⟨path, last, 0⟩).line }
  | _, _ => { s with column := s.column.map Frontier.successor }

/-- The groups of variables of a frame. -/
def scopes (f : Frontier) (frameId : Nat) : Inquiry (List Scope) where
  message := .getScopes frameId
  waitsIdle := false
  expected := "scopes"
  read?
    | .scopes items => some (items.map (externalScope f))
    | _ => none

/-- The variables of a group, or the parts of a variable. -/
def variablesBehind (reference : Nat) : Inquiry (List Variable) where
  message := .getVariables reference
  waitsIdle := false
  expected := "variables"
  read?
    | .variableList items => some items
    | _ => none

/-- Gives a variable a value. -/
def assign (reference : Nat) (name : String) (value : Json) : Inquiry Variable where
  message := .setVariable reference name value
  waitsIdle := false
  expected := "variableSet"
  read?
    | .variableSet newValue => some newValue
    | _ => none

/-- Gives a variable the value that a JSON text writes. -/
def assignText (reference : Nat) (name literal : String) : Except Failure (Inquiry Variable) :=
  match Json.read? literal with
  | some value => .ok (assign reference name value)
  | none => .error (.invalidLiteral literal)

/-- The positions on a line at which a breakpoint may stand. -/
def locations (f : Frontier) (path : String) (line : Nat) : Inquiry (List Position) :=
  let inner := f.toInternal ⟨path, line, 1⟩
  { message := .getBreakpointsForLine inner.path inner.line inner.column
    waitsIdle := true
    expected := "breakpointsForLine"
    read?
      | .breakpointsForLine items =>
        some (items.map fun l => f.toExternal ⟨inner.path, l.line, l.column⟩)
      | _ => none }

/-- Sets a breakpoint, at the first column where none is named. Where no statement matches, the
answer is the position that was asked for. -/
def setBreakpoint (f : Frontier) (path : String) (line : Nat) (column : Option Nat) :
    Inquiry PlacedBreakpoint :=
  let column := column.getD 1
  let asked : Position := ⟨Path.qualify f.workspace (Path.normalize f.workspace path), line, column⟩
  let inner := f.toInternal ⟨path, line, column⟩
  { message := .setBreakpoint inner.path inner.line inner.column
    waitsIdle := true
    expected := "breakpointSet"
    read?
      | .breakpointSet id l =>
        some ⟨id, if id = unresolvedId then asked
          else f.toExternal ⟨inner.path, l.line, l.column⟩⟩
      | _ => none }

/-- Removes a breakpoint; the answer is whether there was one. -/
def removeBreakpoint (id : Int) : Inquiry Bool where
  message := .removeBreakpoint id
  waitsIdle := true
  expected := "breakpointRemoved"
  read?
    | .breakpointRemoved _ removed => some removed
    | _ => none

end ScriptDebugger.Session
