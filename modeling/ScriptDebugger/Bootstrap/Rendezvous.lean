import ScriptDebugger.Text.Blank
import ScriptDebugger.Wire.Frame
/-!
# The rendezvous

A target that has just started asks the rendezvous for the port of the session that waits for it.
The front end offers the port of each session; an offer is handed out once, and a later offer takes
the place of one that was not handed out.

## Main results

* `answer_request` — a request takes the offer, if there is one.
* `answer_other` — anything else gets no reply and leaves the offer alone.
-/

namespace ScriptDebugger.Bootstrap

/-- What a target asks the rendezvous. -/
def portRequest : List UInt8 := Text.Utf8.encode "get-session-port"

/-- What a target asks the session. -/
def debuggerRequest : List UInt8 := Text.Utf8.encode "get-debugger"

/-- The text for a target that no session waits for. -/
def noSession : String := "no-session"

/-- The rendezvous. -/
structure Rendezvous where
  /-- The port that was offered and not handed out. -/
  offered : Option Nat := none
  deriving DecidableEq, Repr

/-- The reply with a port. -/
def portReply (port : Nat) : List UInt8 := Text.Utf8.encode (toString port ++ "\n")

namespace Rendezvous

/-- Offers the port of a session to the next target. -/
def offer (_ : Rendezvous) (port : Nat) : Rendezvous := ⟨some port⟩

/-- Answers a connection that sends these bytes. Only as many of them count as a request has. -/
def answer (r : Rendezvous) (bytes : List UInt8) : Rendezvous × List UInt8 :=
  if bytes.take portRequest.length = portRequest then
    match r.offered with
    | some port => (⟨none⟩, portReply port)
    | none => (r, Text.Utf8.encode noSession)
  else (r, [])

theorem answer_request (port : Nat) :
    (Rendezvous.mk (some port)).answer portRequest = (⟨none⟩, portReply port) := by
  simp [answer]

theorem answer_other (r : Rendezvous) {bytes : List UInt8}
    (h : bytes.take portRequest.length ≠ portRequest) : r.answer bytes = (r, []) := by
  simp [answer, h]

end Rendezvous

/-! ## The target's side -/

/-- What the reply of a rendezvous says. -/
inductive PortReply
  /-- The port of a session. -/
  | session (port : Nat)
  /-- That no session waits. -/
  | noSession
  /-- Nothing that a rendezvous says. -/
  | malformed (text : String)
  deriving DecidableEq, Repr

/-- The most bytes of a reply that a target reads. -/
def replyLimit : Nat := 128

/-- The first line of a reply, with its line feed if it has one. -/
def firstLine (bytes : List UInt8) : List UInt8 :=
  let bytes := bytes.take replyLimit
  let line := bytes.takeWhile (· != 10)
  line ++ (bytes.drop line.length).take 1

/-- The port that a text writes. -/
def port? (cs : List Char) : Option Nat := (Wire.readLength? cs).filter (· < UInt16.size)

/-- Reads the reply of a rendezvous: its first line, without the blanks at its end. -/
def readPort (bytes : List UInt8) : PortReply :=
  let text := Text.dropBlanksRight (Text.Utf8.decodeLossy (firstLine bytes)).toList
  if text = noSession.toList then .noSession
  else
    match port? text with
    | some port => .session port
    | none => .malformed (String.ofList text)

end ScriptDebugger.Bootstrap
