import ScriptDebugger.Json.Fields
import ScriptDebugger.Json.Printer
import ScriptDebugger.Path
import ScriptDebugger.Session.Inquiry
/-!
# Arguments and bodies

What the adapter reads from the arguments of a request, and what it writes into the bodies of
responses and events. Numbers that do not fit are refused, not cut.
-/

namespace ScriptDebugger.Adapter

open Wire (StackFrame Scope Variable)
open Session (PlacedBreakpoint Position StopCause)

/-! ## Arguments -/

/-- Why arguments are refused. -/
inductive ArgumentError
  /-- A field is no natural number of 32 bits. -/
  | notANumber (key : String) (value : Json)
  /-- A breakpoint names no line. -/
  | missingLine

/-- The message for refused arguments. -/
def ArgumentError.message : ArgumentError → String
  | .notANumber key value =>
    s!"{key} must be an integer from 0 to {UInt32.size - 1}, got " ++ value.text
  | .missingLine => "breakpoint without a line"

/-- The number under a key, which may be missing or null. -/
def number? (arguments : Json) (key : String) : Except ArgumentError (Option Nat) :=
  match arguments.member? key with
  | none | some .null => .ok none
  | some value =>
    match value.nat32? with
    | some n => .ok (some n)
    | none => .error (.notANumber key value)

/-- The text under a key, empty where there is none. -/
def textOf (arguments : Json) (key : String) : String :=
  ((arguments.member? key).bind Json.string?).getD ""

/-- The path of the source that arguments name, empty where they name none. -/
def sourcePath (arguments : Json) : String :=
  ((arguments.member? "source").map fun source => textOf source "path").getD ""

/-- The line and the column of a breakpoint that is asked for. -/
def askedBreakpoint (j : Json) : Except ArgumentError (Nat × Option Nat) := do
  match ← number? j "line" with
  | none => .error .missingLine
  | some line => return (line, ← number? j "column")

/-- The breakpoints that arguments ask for. -/
def askedBreakpoints (arguments : Json) : Except ArgumentError (List (Nat × Option Nat)) :=
  (((arguments.member? "breakpoints").bind Json.array?).getD []).mapM askedBreakpoint

/-! ## Bodies -/

/-- The only thread there is. -/
def threadId : Nat := 1

/-- What the adapter can do. -/
def capabilities : Json :=
  .object
    [("supportsConfigurationDoneRequest", .bool true),
      ("supportsBreakpointLocationsRequest", .bool true), ("supportsSetVariable", .bool true),
      ("supportsTerminateRequest", .bool true), ("supportsStepBack", .bool false),
      ("supportsStepInTargetsRequest", .bool false), ("supportsFunctionBreakpoints", .bool false),
      ("supportsConditionalBreakpoints", .bool false)]

/-- The threads. -/
def threads : Json :=
  .object [("threads", .array [.object [("id", .ofNat threadId), ("name", .string "main")]])]

/-- A source, named by the last component of its path. -/
def sourceBody (path : String) : Json :=
  .object [("name", .string ((Path.fileName? path).getD path)), ("path", .string path)]

/-- A breakpoint. -/
def breakpointBody (b : PlacedBreakpoint) : Json :=
  .object
    [("id", .ofInt b.id), ("verified", .bool b.isVerified), ("line", .ofNat b.position.line),
      ("column", .ofNat b.position.column), ("source", sourceBody b.position.path)]

/-- Breakpoints. -/
def breakpointsBody (items : List PlacedBreakpoint) : Json :=
  .object [("breakpoints", .array (items.map breakpointBody))]

/-- Positions at which a breakpoint may stand. -/
def locationsBody (items : List Position) : Json :=
  .object
    [("breakpoints",
      .array (items.map fun p => .object [("line", .ofNat p.line), ("column", .ofNat p.column)]))]

/-- A frame. -/
def frameBody (f : StackFrame) : Json :=
  .object
    ([("id", .ofNat f.id), ("name", .string f.name), ("line", .ofNat f.line),
        ("column", .ofNat f.column)] ++
      Json.optionalMember "source" sourceBody f.source)

/-- A page of frames; the total is that of the page. -/
def stackBody (frames : List StackFrame) : Json :=
  .object
    [("stackFrames", .array (frames.map frameBody)), ("totalFrames", .ofNat frames.length)]

/-- A group of variables. -/
def scopeBody (s : Scope) : Json :=
  .object
    ([("name", .string s.name), ("presentationHint", .string s.presentationHint),
        ("variablesReference", .ofNat s.variablesReference), ("expensive", .bool s.expensive)] ++
      Json.optionalMember "source" sourceBody s.source ++
      Json.optionalMember "line" Json.ofNat s.line ++
      Json.optionalMember "column" Json.ofNat s.column ++
      Json.optionalMember "endLine" Json.ofNat s.endLine)

/-- Groups of variables. -/
def scopesBody (items : List Scope) : Json := .object [("scopes", .array (items.map scopeBody))]

/-- Variables. -/
def variablesBody (items : List Variable) : Json :=
  .object [("variables", .array (items.map Variable.toJson))]

/-- A variable that has a new value. -/
def newValueBody (v : Variable) : Json :=
  .object
    [("value", .string v.value), ("type", .string v.typeName),
      ("variablesReference", .ofNat v.variablesReference)]

/-- A stop of the program for a reason. -/
def stoppedBody (reason : String) (hit : Option Int) : Json :=
  .object
    ([("reason", .string reason), ("threadId", .ofNat threadId), ("allThreadsStopped", .bool true)] ++
      Json.optionalMember "hitBreakpointIds" (fun id => .array [.ofInt id]) hit)

/-- A stop of the program as the session reports it. -/
def stopBody : StopCause → Json
  | .step => stoppedBody "step" none
  | .breakpoint id => stoppedBody "breakpoint" (some id)

/-- Text that the user is to see. -/
def outputBody (category text : String) : Json :=
  .object [("category", .string category), ("output", .string text)]

end ScriptDebugger.Adapter
