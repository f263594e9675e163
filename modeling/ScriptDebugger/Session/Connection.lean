import ScriptDebugger.Debug.Agent
import ScriptDebugger.Session.Inquiry
import ScriptDebugger.Session.Mailbox
/-!
# Connections

A connection is the session's end of the two byte streams to a peer, which is a debug agent or
anything that behaves like one. What the session sends, the peer takes at once, and what the peer
answers is decoded into the mailbox. A result of `none` means that the peer does not come to rest,
or that a caller waits for a reply that never comes.

## Main results

* `ask_eq_begin_finish` — asking is sending the request and, later, taking its reply.
-/

namespace ScriptDebugger.Session

open Wire (DebuggerMessage HostMessage Decoder)

/-- The far side of a connection. Its work takes fuel, since it may have none of its own end. -/
class Peer (π : Type) where
  /-- Takes bytes: the state after it, and the bytes sent back. -/
  receive : (fuel : Nat) → π → List UInt8 → Option (π × List UInt8)
  /-- Takes the end of the bytes. -/
  hangUp : (fuel : Nat) → π → Option π
  /-- Whether the peer has ended the connection. -/
  hasClosed : π → Bool

/-- The bytes of messages of the agent. -/
def bytesOf (messages : List DebuggerMessage) : List UInt8 :=
  messages.flatMap DebuggerMessage.encode

instance {σ : Type} [Engine σ] : Peer (Debug.Agent σ) where
  receive fuel agent bytes := (agent.feed fuel bytes).map fun (a, sent) => (a, bytesOf sent)
  hangUp fuel agent := agent.hangUp fuel
  hasClosed agent := agent.phase == .finished

/-- The session's end of a connection to a peer. -/
structure Connection (π : Type) where
  /-- The peer. -/
  peer : π
  /-- What came from the peer and is no complete message. -/
  decoder : Decoder := {}
  /-- The state that the callers share. -/
  mailbox : Mailbox := {}
  /-- The notices raised so far, oldest first. -/
  notices : List Notice := []

namespace Connection

variable {π : Type} [Peer π] {α : Type}

/-- Raises notices. -/
def raise (c : Connection π) (notices : List Notice) : Connection π :=
  { c with notices := c.notices ++ notices }

/-- Marks the connection as ended, which is worth one notice. -/
def markEnded (c : Connection π) : Connection π :=
  if c.mailbox.closed then c else raise { c with mailbox := c.mailbox.close } [.ended]

/-- Takes bytes of the peer, and notes whether it has ended the connection. After the end nothing
is taken any more. -/
def absorb (c : Connection π) (bytes : List UInt8) : Connection π :=
  if c.mailbox.closed then c
  else
    let decoder := c.decoder.extend bytes
    let (decoder, replies) :=
      Wire.takeAll (Decoder.nextMessage DebuggerMessage.decode?) (decoder.weight + 1) decoder
    let c := { c with decoder, mailbox := c.mailbox.deliver replies }
    if Peer.hasClosed c.peer then c.markEnded else c

/-- A connection to a peer that has sent its first bytes. -/
def accept (peer : π) (opening : List UInt8) : Connection π :=
  absorb { peer } opening

/-- Sends a message to the peer. -/
def send (fuel : Nat) (c : Connection π) (message : HostMessage) : Option (Connection π) :=
  (Peer.receive fuel c.peer message.encode).map fun (peer, bytes) => absorb { c with peer } bytes

/-- Ends the connection from this side. -/
def close (fuel : Nat) (c : Connection π) : Option (Connection π) :=
  (Peer.hangUp fuel c.peer).map fun peer => markEnded { c with peer }

/-- Claims the session for an inquiry and sends its message. -/
def begin? (fuel : Nat) (c : Connection π) (q : Inquiry α) :
    Option (Connection π × Except Failure Unit) :=
  match c.mailbox.claim q.waitsIdle with
  | (_, .wait) => none
  | (_, .busy) => some (c, .error .busy)
  | (_, .closed) => some (c, .error .closed)
  | (mailbox, .granted) =>
    (send fuel { c with mailbox } q.message).map fun c => (c, .ok ())

/-- Takes a reply and gives what it says. -/
def takeReply? (c : Connection π) : Option (Connection π × Except Failure DebuggerMessage) :=
  match c.mailbox.take with
  | (mailbox, .reply message) => some ({ c with mailbox }, .ok message)
  | (_, .closed) => some (c, .error .closed)
  | (_, .wait) => none

/-- Gives the session back. -/
def release (c : Connection π) : Connection π := { c with mailbox := c.mailbox.release }

/-- The notice of an outcome. -/
def noticesOf (q : Inquiry α) : Except Failure α → List Notice
  | .ok answer => (q.notice answer).toList
  | .error _ => []

/-- Takes the reply to an inquiry, gives the session back, and raises the notice that the answer is
worth. -/
def finish? (c : Connection π) (q : Inquiry α) : Option (Connection π × Except Failure α) :=
  (takeReply? c).map fun (c, reply) =>
    let outcome := reply.bind q.interpret
    (c.release.raise (noticesOf q outcome), outcome)

/-- Asks the peer and waits for its reply. -/
def ask (fuel : Nat) (c : Connection π) (q : Inquiry α) :
    Option (Connection π × Except Failure α) :=
  match begin? fuel c q with
  | none => none
  | some (c, .error e) => some (c, .error e)
  | some (c, .ok ()) => finish? c q

theorem ask_eq_begin_finish {fuel : Nat} {c c' : Connection π} {q : Inquiry α}
    (h : begin? fuel c q = some (c', .ok ())) : ask fuel c q = finish? c' q := by
  simp [ask, h]

end Connection

end ScriptDebugger.Session
