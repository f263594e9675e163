import ScriptDebugger.Text.Quoted
/-!
# What a session reports

The causes for which a program stops, the notices that a session raises while it lives, and the
causes for which a request to it fails.
-/

namespace ScriptDebugger.Session

/-- Why the program stopped. -/
inductive StopCause
  /-- A step was done. -/
  | step
  /-- The breakpoint with an identifier was reached. -/
  | breakpoint (id : Int)
  deriving DecidableEq, Repr

/-- What a session lets its owner know. -/
inductive Notice
  /-- The program at an absolute path is loaded. -/
  | loaded (path : String)
  /-- The program stopped. -/
  | stopped (cause : StopCause)
  /-- The connection has ended; no further request can succeed. -/
  | ended
  deriving DecidableEq, Repr

/-- Why a request to a session failed. -/
inductive Failure
  /-- Another request is on its way. -/
  | busy
  /-- The connection has ended. -/
  | closed
  /-- The reply was of another kind. -/
  | unexpectedReply (expected got : String)
  /-- The session could not be started. -/
  | handshake (cause : Failure)
  /-- The agent refused. -/
  | remote (message : String)
  /-- The text for a new value is no JSON text. -/
  | invalidLiteral (literal : String)
  deriving DecidableEq, Repr

/-- The message of a failure. -/
def Failure.message : Failure → String
  | .busy => "a request is already in flight on this session"
  | .closed => "the debug session has ended"
  | .unexpectedReply expected got => s!"expected \"{expected}\" message, got \"{got}\""
  | .handshake cause => "session start failed: " ++ cause.message
  | .remote message => "debuggee reported an error: " ++ message
  | .invalidLiteral literal =>
    "value " ++ Text.quoted literal ++ " is not a valid literal: ..."

end ScriptDebugger.Session
