import ScriptDebugger.Bootstrap.Rendezvous
import ScriptDebugger.Json.Fields
import ScriptDebugger.Json.Outline
import ScriptDebugger.Json.Printer
import ScriptDebugger.Wire.Message
/-!
# Settings of the agent

A target that found its session asks it for the agent's settings, which come as one frame; behind
that frame the messages begin. Settings that cannot be read mean the defaults, but a session that
ends before the frame is complete means no debugging at all.

## Main results

* `accept_cons_of_request` — the first connection that asks for the debugger is accepted.
-/

namespace ScriptDebugger.Bootstrap

open Wire (Decoder)

/-- What the agent is told before the session begins. -/
structure AgentSettings where
  /-- Whether it keeps a log. -/
  trace : Bool := false
  deriving DecidableEq, Repr

namespace AgentSettings

/-- The record of settings. -/
def toJson (s : AgentSettings) : Json := .object [("trace", .bool s.trace)]

/-- The settings that a document is. -/
def ofJson? (j : Json) : Option AgentSettings :=
  match j.fields? ["trace"] with
  | some [none] => some {}
  | some [some trace] => trace.bool?.map fun b => ⟨b⟩
  | _ => none

/-- The settings that a payload is, or the defaults. -/
def ofPayload (payload : List UInt8) : AgentSettings :=
  (((Text.Utf8.decode? payload).bind (Json.Outline.record? ["trace"])).bind ofJson?).getD {}

/-- The settings at the front of what a session sends. -/
def ofStream? (bytes : List UInt8) : Option AgentSettings :=
  (Wire.Decoder.nextMessage some (Decoder.extend {} bytes)).2.map ofPayload

end AgentSettings

/-! ## The session's side -/

/-- The reply to a connection that sends these bytes, if it asks for the debugger. -/
def settingsReply? (settings : AgentSettings) (bytes : List UInt8) : Option (List UInt8) :=
  if bytes.take debuggerRequest.length = debuggerRequest then
    some (Wire.encodeJson settings.toJson)
  else none

/-- Takes connections one after another until one asks for the debugger: what each one that was
taken gets as a reply, and whether there was one. -/
def accept (settings : AgentSettings) : List (List UInt8) → List (List UInt8) × Bool
  | [] => ([], false)
  | bytes :: rest =>
    match settingsReply? settings bytes with
    | some reply => ([reply], true)
    | none =>
      let (replies, accepted) := accept settings rest
      ([] :: replies, accepted)

theorem accept_cons_of_request (settings : AgentSettings) (rest : List (List UInt8)) :
    accept settings (debuggerRequest :: rest) = ([Wire.encodeJson settings.toJson], true) := by
  simp [accept, settingsReply?]

/-- The message for a wait that ended for a reason. -/
def waitFailure (reason : String) : String := "I/O error: " ++ reason

end ScriptDebugger.Bootstrap
