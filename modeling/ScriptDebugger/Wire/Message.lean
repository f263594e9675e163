import ScriptDebugger.Json.Fields
import ScriptDebugger.Json.Parser
import ScriptDebugger.Json.Printer
import ScriptDebugger.Source.Location
import ScriptDebugger.Wire.Frame
/-!
# Messages

What the front end and the debug agent say to each other, and how it is written. A message is an
object whose member `type` names its kind, followed by the fields of that kind; it may also be read
from an array that begins with the kind. A kind that the agent does not know is still a message; one
that the front end does not know is none.
-/

namespace ScriptDebugger.Wire

/-- A frame as the front end shows it. -/
structure StackFrame where
  /-- How many frames stand above it. -/
  id : Nat
  /-- The name of the function, or the kind of the frame. -/
  name : String
  /-- The path of the source. -/
  source : Option String
  /-- The line. -/
  line : Nat
  /-- The column. -/
  column : Nat
  deriving DecidableEq, Repr

/-- A group of variables as the front end shows it. -/
structure Scope where
  /-- The title. -/
  name : String
  /-- What sort of group it is. -/
  presentationHint : String
  /-- The reference under which the variables are asked for. -/
  variablesReference : Nat
  /-- Whether there may be many variables. -/
  expensive : Bool
  /-- The path of the source that the group belongs to. -/
  source : Option String
  /-- The first line. -/
  line : Option Nat
  /-- The first column. -/
  column : Option Nat
  /-- The last line. -/
  endLine : Option Nat
  deriving DecidableEq, Repr

/-- A variable as the front end shows it. -/
structure Variable where
  /-- The name. -/
  name : String
  /-- The text of the value. -/
  value : String
  /-- The type of the value. -/
  typeName : String
  /-- The reference under which the value's parts are asked for; zero where it has none. -/
  variablesReference : Nat
  deriving DecidableEq, Repr

/-- What the agent says. -/
inductive DebuggerMessage
  | connect
  | programLoaded (path : String)
  | breakpointSet (id : Int) (location : Location)
  | breakpointRemoved (id : Int) (removed : Bool)
  | breakpointsForLine (locations : List Location)
  | stack (frames : List StackFrame)
  | scopes (items : List Scope)
  | variableList (items : List Variable)
  | variableSet (newValue : Variable)
  | stopOnStep
  | stopOnBreakpoint (id : Int)
  | error (message : String)
  deriving DecidableEq

/-- What the front end says. -/
inductive HostMessage
  | startDebugLogging
  | stopDebugLogging
  | loadProgram (path : String)
  | proceed
  | next
  | stepIn
  | stepOut
  | setBreakpoint (path : String) (line column : Nat)
  | removeBreakpoint (id : Int)
  | getStack (index count : Nat)
  | getScopes (frameId : Nat)
  | getVariables (reference : Nat)
  | setVariable (reference : Nat) (name : String) (value : Json)
  | getBreakpointsForLine (path : String) (line column : Nat)
  /-- A message of another kind. -/
  | unknown

/-! ## Kinds -/

/-- The kind of a message of the agent. -/
def DebuggerMessage.kind : DebuggerMessage → String
  | .connect => "connect"
  | .programLoaded _ => "programLoaded"
  | .breakpointSet _ _ => "breakpointSet"
  | .breakpointRemoved _ _ => "breakpointRemoved"
  | .breakpointsForLine _ => "breakpointsForLine"
  | .stack _ => "stack"
  | .scopes _ => "scopes"
  | .variableList _ => "variables"
  | .variableSet _ => "variableSet"
  | .stopOnStep => "stopOnStep"
  | .stopOnBreakpoint _ => "stopOnBreakpoint"
  | .error _ => "error"

/-- The kind of a message of the front end. -/
def HostMessage.kind : HostMessage → String
  | .startDebugLogging => "startDebugLogging"
  | .stopDebugLogging => "stopDebugLogging"
  | .loadProgram _ => "loadProgram"
  | .proceed => "continue"
  | .next => "next"
  | .stepIn => "stepIn"
  | .stepOut => "stepOut"
  | .setBreakpoint _ _ _ => "setBreakpoint"
  | .removeBreakpoint _ => "removeBreakpoint"
  | .getStack _ _ => "getStack"
  | .getScopes _ => "getScopes"
  | .getVariables _ => "getVariables"
  | .setVariable _ _ _ => "setVariable"
  | .getBreakpointsForLine _ _ _ => "getBreakpointsForLine"
  | .unknown => "unknown"

/-! ## Writing -/

/-- The record of a source. -/
def sourceJson (path : String) : Json := .object [("path", .string path)]

/-- The record of a location. -/
def locationJson (l : Location) : Json :=
  .object [("line", .ofNat l.line), ("column", .ofNat l.column)]

/-- The record of a frame. -/
def StackFrame.toJson (f : StackFrame) : Json :=
  .object
    ([("id", .ofNat f.id), ("name", .string f.name)] ++
      Json.optionalMember "source" sourceJson f.source ++
      [("line", .ofNat f.line), ("column", .ofNat f.column)])

/-- The record of a scope. -/
def Scope.toJson (s : Scope) : Json :=
  .object
    ([("name", .string s.name), ("presentationHint", .string s.presentationHint),
        ("variablesReference", .ofNat s.variablesReference), ("expensive", .bool s.expensive)] ++
      Json.optionalMember "source" sourceJson s.source ++
      Json.optionalMember "line" Json.ofNat s.line ++
      Json.optionalMember "column" Json.ofNat s.column ++
      Json.optionalMember "endLine" Json.ofNat s.endLine)

/-- The record of a variable. -/
def Variable.toJson (v : Variable) : Json :=
  .object
    [("name", .string v.name), ("value", .string v.value), ("type", .string v.typeName),
      ("variablesReference", .ofNat v.variablesReference)]

/-- A message's kind and fields as a document. -/
def messageJson (kind : String) (fields : List (String × Json)) : Json :=
  .object (("type", .string kind) :: fields)

/-- The fields of a message of the agent. -/
def DebuggerMessage.fields : DebuggerMessage → List (String × Json)
  | .connect | .stopOnStep => []
  | .programLoaded path => [("source", sourceJson path)]
  | .breakpointSet id location => [("id", .ofInt id), ("location", locationJson location)]
  | .breakpointRemoved id removed => [("id", .ofInt id), ("removed", .bool removed)]
  | .breakpointsForLine locations => [("locations", .array (locations.map locationJson))]
  | .stack frames => [("frames", .array (frames.map StackFrame.toJson))]
  | .scopes items => [("scopes", .array (items.map Scope.toJson))]
  | .variableList items => [("variables", .array (items.map Variable.toJson))]
  | .variableSet newValue => [("newValue", newValue.toJson)]
  | .stopOnBreakpoint id => [("id", .ofInt id)]
  | .error message => [("message", .string message)]

/-- The fields of a message of the front end. -/
def HostMessage.fields : HostMessage → List (String × Json)
  | .startDebugLogging | .stopDebugLogging | .proceed | .next | .stepIn | .stepOut | .unknown => []
  | .loadProgram path => [("path", .string path)]
  | .setBreakpoint path line column | .getBreakpointsForLine path line column =>
    [("path", .string path), ("line", .ofNat line), ("column", .ofNat column)]
  | .removeBreakpoint id => [("id", .ofInt id)]
  | .getStack index count => [("index", .ofNat index), ("count", .ofNat count)]
  | .getScopes frameId => [("frameId", .ofNat frameId)]
  | .getVariables reference => [("reference", .ofNat reference)]
  | .setVariable reference name value =>
    [("reference", .ofNat reference), ("name", .string name), ("value", value)]

/-- A message of the agent as a document. -/
def DebuggerMessage.toJson (m : DebuggerMessage) : Json := messageJson m.kind m.fields

/-- A message of the front end as a document. A message of another kind is
written with the kind `unknown`. -/
def HostMessage.toJson (m : HostMessage) : Json := messageJson m.kind m.fields

/-- The frame of a document. -/
def encodeJson (j : Json) : List UInt8 := encodeFrame (Text.Utf8.encode j.text)

/-- The frame of a message of the agent. -/
def DebuggerMessage.encode (m : DebuggerMessage) : List UInt8 := encodeJson m.toJson

/-- The frame of a message of the front end. -/
def HostMessage.encode (m : HostMessage) : List UInt8 := encodeJson m.toJson

/-! ## Reading -/

/-- The path of a source record. -/
def source? (j : Json) : Option String :=
  match j.fields? ["path"] with
  | some [some path] => path.string?
  | _ => none

/-- The location of a record. -/
def location? (j : Json) : Option Location :=
  match j.fields? ["line", "column"] with
  | some [some line, some column] => do pure ⟨← line.nat32?, ← column.nat32?⟩
  | _ => none

/-- The frame of a record. -/
def StackFrame.ofJson? (j : Json) : Option StackFrame :=
  match j.fields? ["id", "name", "source", "line", "column"] with
  | some [some id, some name, source, some line, some column] => do
    pure ⟨← id.nat32?, ← name.string?, ← Json.optional? source? source, ← line.nat32?, ← column.nat32?⟩
  | _ => none

/-- The scope of a record. -/
def Scope.ofJson? (j : Json) : Option Scope :=
  match
    j.fields? ["name", "presentationHint", "variablesReference", "expensive", "source", "line",
      "column", "endLine"]
  with
  | some [some name, some hint, some reference, some expensive, source, line, column, endLine] => do
    pure
      ⟨← name.string?, ← hint.string?, ← reference.nat32?, ← expensive.bool?,
        ← Json.optional? source? source, ← Json.optional? Json.nat32? line,
        ← Json.optional? Json.nat32? column, ← Json.optional? Json.nat32? endLine⟩
  | _ => none

/-- The variable of a record. -/
def Variable.ofJson? (j : Json) : Option Variable :=
  match j.fields? ["name", "value", "type", "variablesReference"] with
  | some [some name, some value, some typeName, some reference] => do
    pure ⟨← name.string?, ← value.string?, ← typeName.string?, ← reference.nat32?⟩
  | _ => none

/-- The kind of a message and its fields, as an object without the kind or an array behind it. -/
def splitKind? : Json → Option (String × Json)
  | .object members =>
    match members.filter fun m => m.1 == "type" with
    | [(_, .string kind)] => some (kind, .object (members.filter fun m => m.1 != "type"))
    | _ => none
  | .array (.string kind :: items) => some (kind, .array items)
  | _ => none

/-- The fields of a message that has none, which in an array has to end behind its kind. -/
def noFields? : Json → Option Unit
  | .array (_ :: _) => none
  | _ => some ()

/-- The message of the agent with a kind and fields. -/
def DebuggerMessage.ofKind? (kind : String) (j : Json) : Option DebuggerMessage :=
  match kind with
  | "connect" => (noFields? j).map fun _ => .connect
  | "programLoaded" =>
    match j.fields? ["source"] with
    | some [some source] => (source? source).map .programLoaded
    | _ => none
  | "breakpointSet" =>
    match j.fields? ["id", "location"] with
    | some [some id, some location] => do pure (.breakpointSet (← id.int64?) (← location? location))
    | _ => none
  | "breakpointRemoved" =>
    match j.fields? ["id", "removed"] with
    | some [some id, some removed] => do pure (.breakpointRemoved (← id.int64?) (← removed.bool?))
    | _ => none
  | "breakpointsForLine" =>
    match j.fields? ["locations"] with
    | some [some items] => (Json.list? location? items).map .breakpointsForLine
    | _ => none
  | "stack" =>
    match j.fields? ["frames"] with
    | some [some items] => (Json.list? StackFrame.ofJson? items).map .stack
    | _ => none
  | "scopes" =>
    match j.fields? ["scopes"] with
    | some [some items] => (Json.list? Scope.ofJson? items).map .scopes
    | _ => none
  | "variables" =>
    match j.fields? ["variables"] with
    | some [some items] => (Json.list? Variable.ofJson? items).map .variableList
    | _ => none
  | "variableSet" =>
    match j.fields? ["newValue"] with
    | some [some newValue] => (Variable.ofJson? newValue).map .variableSet
    | _ => none
  | "stopOnStep" => (noFields? j).map fun _ => .stopOnStep
  | "stopOnBreakpoint" =>
    match j.fields? ["id"] with
    | some [some id] => id.int64?.map .stopOnBreakpoint
    | _ => none
  | "error" =>
    match j.fields? ["message"] with
    | some [some message] => message.string?.map .error
    | _ => none
  | _ => none

/-- A path, a line and a column. -/
def place? (j : Json) : Option (String × Nat × Nat) :=
  match j.fields? ["path", "line", "column"] with
  | some [some path, some line, some column] => do
    pure (← path.string?, ← line.nat32?, ← column.nat32?)
  | _ => none

/-- The message of the front end with a kind and fields. -/
def HostMessage.ofKind? (kind : String) (j : Json) : Option HostMessage :=
  match kind with
  | "startDebugLogging" => (noFields? j).map fun _ => .startDebugLogging
  | "stopDebugLogging" => (noFields? j).map fun _ => .stopDebugLogging
  | "loadProgram" =>
    match j.fields? ["path"] with
    | some [some path] => path.string?.map .loadProgram
    | _ => none
  | "continue" => (noFields? j).map fun _ => .proceed
  | "next" => (noFields? j).map fun _ => .next
  | "stepIn" => (noFields? j).map fun _ => .stepIn
  | "stepOut" => (noFields? j).map fun _ => .stepOut
  | "setBreakpoint" => (place? j).map fun (path, line, column) => .setBreakpoint path line column
  | "removeBreakpoint" =>
    match j.fields? ["id"] with
    | some [some id] => id.int64?.map .removeBreakpoint
    | _ => none
  | "getStack" =>
    match j.fields? ["index", "count"] with
    | some [some index, some count] => do pure (.getStack (← index.nat32?) (← count.nat32?))
    | _ => none
  | "getScopes" =>
    match j.fields? ["frameId"] with
    | some [some frameId] => frameId.nat32?.map .getScopes
    | _ => none
  | "getVariables" =>
    match j.fields? ["reference"] with
    | some [some reference] => reference.nat32?.map .getVariables
    | _ => none
  | "setVariable" =>
    match j.fields? ["reference", "name", "value"] with
    | some [some reference, some name, some value] => do
      pure (.setVariable (← reference.nat32?) (← name.string?) value.canonical)
    | _ => none
  | "getBreakpointsForLine" =>
    (place? j).map fun (path, line, column) => .getBreakpointsForLine path line column
  | _ => (noFields? j).map fun _ => .unknown

/-- The message of the agent that a document is. -/
def DebuggerMessage.ofJson? (j : Json) : Option DebuggerMessage :=
  (splitKind? j).bind fun (kind, fields) => ofKind? kind fields

/-- The message of the front end that a document is. -/
def HostMessage.ofJson? (j : Json) : Option HostMessage :=
  (splitKind? j).bind fun (kind, fields) => ofKind? kind fields

/-- The document that bytes write. -/
def jsonOfBytes? (bytes : List UInt8) : Option Json := (Text.Utf8.decode? bytes).bind Json.parse?

/-- The message of the agent that a payload is. -/
def DebuggerMessage.decode? (payload : List UInt8) : Option DebuggerMessage :=
  (jsonOfBytes? payload).bind ofJson?

/-- The message of the front end that a payload is. -/
def HostMessage.decode? (payload : List UInt8) : Option HostMessage :=
  (jsonOfBytes? payload).bind ofJson?

end ScriptDebugger.Wire
