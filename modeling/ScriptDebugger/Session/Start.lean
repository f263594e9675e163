import ScriptDebugger.Session.Connection
/-!
# Sessions

A session begins with a handshake: the agent greets, the session may ask for a log, names the
program, and learns which program was loaded. Then the mapper of that program is made, and the
session answers inquiries until it is closed or the program ends.

## Main results

* `handshake_greeting` — a first message other than a greeting fails the start.
-/

namespace ScriptDebugger

/-- A session with a loaded program. -/
structure Session (π : Type) where
  /-- The absolute path of the program. -/
  program : String
  /-- The workspace, and the mapper of the program. -/
  frontier : Session.Frontier
  /-- The connection to the agent. -/
  connection : Session.Connection π

namespace Session

open Wire (DebuggerMessage HostMessage)

variable {π : Type} [Peer π] {α : Type}

/-- What a session is started with. -/
structure Options where
  /-- The program to load, absolute or relative to the workspace. -/
  program : String
  /-- The directory of the user's files. -/
  workspace : String
  /-- Whether the agent is asked for a log. -/
  trace : Bool

/-- The directory of the program, or the workspace if the program lies in none. -/
def programDirectory (workspace program : String) : String :=
  (Path.parent? program).getD workspace

/-- Reads the greeting. -/
def greeting (c : Connection π) : Option (Connection π × Except Failure Unit) :=
  (c.takeReply?).map fun (c, reply) =>
    (c, reply.bind fun
      | .connect => .ok ()
      | other => .error (.unexpectedReply "connect" other.kind))

/-- Greets and loads the program; the answer is the path that the agent reports. -/
def handshake (fuel : Nat) (c : Connection π) (options : Options) :
    Option (Connection π × Except Failure String) :=
  match greeting c with
  | none => none
  | some (c, .error e) => some (c, .error e)
  | some (c, .ok ()) => do
    let c ← if options.trace then c.send fuel .startDebugLogging else some c
    c.ask fuel (loadProgram (Path.normalize options.workspace options.program))

theorem handshake_greeting (fuel : Nat) (c : Connection π) (options : Options)
    {message : DebuggerMessage} {rest : List DebuggerMessage}
    (h : c.mailbox.inbox = message :: rest) (hm : message ≠ .connect) :
    ∃ c', handshake fuel c options =
      some (c', .error (.unexpectedReply "connect" message.kind)) := by
  cases message <;>
    simp_all [handshake, greeting, Connection.takeReply?, Mailbox.take, Except.bind]

/-- Starts a session on a connection. `mapperFor` makes the mapper from the program's directory and
the workspace. A start that fails ends the connection. -/
def start (fuel : Nat) (c : Connection π) (options : Options)
    (mapperFor : (directory workspace : String) → Mapper) :
    Option (Except (Failure × Connection π) (Session π)) :=
  match handshake fuel c options with
  | none => none
  | some (c, .error e) => (c.close fuel).map fun c => .error (.handshake e, c)
  | some (c, .ok path) =>
    let program := Path.qualify options.workspace path
    let mapper := mapperFor (programDirectory options.workspace program) options.workspace
    some (.ok ⟨program, ⟨options.workspace, mapper⟩, c.raise [.loaded program]⟩)

/-- Whether the connection has ended. -/
def isClosed (s : Session π) : Bool := s.connection.mailbox.closed

/-- The notices raised so far, oldest first. -/
def notices (s : Session π) : List Notice := s.connection.notices

/-- Asks the agent and waits for its reply. -/
def ask (fuel : Nat) (s : Session π) (q : Inquiry α) : Option (Session π × Except Failure α) :=
  (s.connection.ask fuel q).map fun (connection, outcome) => ({ s with connection }, outcome)

/-- Ends the session. The agent lets the program run on. -/
def close (fuel : Nat) (s : Session π) : Option (Session π) :=
  (s.connection.close fuel).map fun connection => { s with connection }

end Session

end ScriptDebugger
