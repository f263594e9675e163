import ScriptDebugger.Debug.Context
import ScriptDebugger.Wire.Link
/-!
# The debug agent

The agent sits beside the program and serves the front end. It greets, waits until the program to
run is named, and then runs the program from stop to stop; at each stop it answers requests until
one lets the program go on. When the front end goes away, or the link to it breaks, the program runs
on to its end without stopping.

The agent is a state that takes bytes and hands out messages. Running the program takes fuel, since
a program need not end.
-/

namespace ScriptDebugger.Debug

open Wire (DebuggerMessage HostMessage Decoder Read)

/-- What the front end's message asks the agent to do. -/
inductive Outcome
  /-- To go on serving. -/
  | serve
  /-- To let the program go on. -/
  | go (mode : RunMode)
  deriving DecidableEq, Repr

/-- Where the agent stands. -/
inductive Phase
  /-- The program has not been started. -/
  | greeting
  /-- The program is paused. -/
  | paused
  /-- The program has ended. -/
  | finished
  deriving DecidableEq, Repr

/-- An agent with its program. -/
structure Agent (σ : Type) where
  /-- The program. -/
  engine : σ
  /-- The debugger's state. -/
  context : Context
  /-- What came from the front end and was not served. -/
  decoder : Decoder
  /-- Where the agent stands. -/
  phase : Phase
  /-- Whether the front end is there. -/
  connected : Bool
  /-- How many messages the link takes before it breaks; none if it holds. -/
  capacity : Option Nat

namespace Agent

variable {σ : Type} [Engine σ]

/-- Sends a message, if the front end is there and the link holds. -/
def send (a : Agent σ) (message : DebuggerMessage) : Agent σ × List DebuggerMessage :=
  if !a.connected then (a, [])
  else
    match a.capacity with
    | none => (a, [message])
    | some 0 => ({ a with connected := false }, [])
    | some (n + 1) => ({ a with capacity := some n }, [message])

/-- An agent for a program, and its greeting. -/
def start (engine : σ) (capacity : Option Nat) : Agent σ × List DebuggerMessage :=
  send
    { engine, context := .initial, decoder := {}, phase := .greeting, connected := true, capacity }
    .connect

/-- The message for a stop. -/
def announcement (context : Context) (engine : σ) (stop : Stop) : DebuggerMessage :=
  match stop.reason with
  | .loaded =>
    let info := ((Engine.frame? engine stop.frame).bind (·.unit)).bind (Engine.unitInfo? engine)
    .programLoaded ((info.map (·.url)).getD "")
  | .step => .stopOnStep
  | .breakpoint _ =>
    .stopOnBreakpoint
      (match context.breakpointId engine stop with
      | some id => id
      | none => Breakpoints.unresolvedId)

/-- The answer to a question. -/
def answer : Except QueryError DebuggerMessage → DebuggerMessage
  | .ok message => message
  | .error e => .error e.message

/-- Carries out a message of the front end: the state after it, the answer if there is one, and
whether the program goes on. -/
def perform (context : Context) (engine : σ) :
    HostMessage → Context × σ × Option DebuggerMessage × Outcome
  | .loadProgram path => (context, Engine.selectProgram engine path, none, .go .run)
  | .getBreakpointsForLine path line column =>
    let locations := (context.breakpoints.candidates engine path line column).map (·.location)
    (context, engine, some (.breakpointsForLine locations), .serve)
  | .setBreakpoint path line column =>
    let (breakpoints, engine, id) := context.breakpoints.set engine path line column
    ({ context with breakpoints }, engine, some (.breakpointSet id ⟨line, column⟩), .serve)
  | .removeBreakpoint id =>
    let (breakpoints, engine, removed) := context.breakpoints.remove engine id
    ({ context with breakpoints }, engine, some (.breakpointRemoved id removed), .serve)
  | .getStack index count =>
    (context, engine, some (answer ((context.stack engine index count).map .stack)), .serve)
  | .getScopes frameId =>
    (context, engine, some (answer ((context.scopes engine frameId).map .scopes)), .serve)
  | .getVariables reference =>
    match context.variablesBehind engine reference with
    | .ok (context, items) => (context, engine, some (.variableList items), .serve)
    | .error e => (context, engine, some (.error e.message), .serve)
  | .setVariable reference name value =>
    match context.setVariable engine reference name value with
    | (engine, .ok (context, v)) => (context, engine, some (.variableSet v), .serve)
    | (engine, .error e) => (context, engine, some (.error e.message), .serve)
  | .next => (context, engine, none, .go .over)
  | .stepIn => (context, engine, none, .go .into)
  | .stepOut => (context, engine, none, .go .out)
  | .proceed | .unknown => (context, engine, none, .go .run)
  | .startDebugLogging | .stopDebugLogging => (context, engine, none, .serve)

/-- Leaves the pause, or the greeting, in which there is no pause to leave. -/
def leave (a : Agent σ) (mode : RunMode) : Agent σ :=
  match a.phase with
  | .paused => { a with context := a.context.resume mode }
  | .greeting | .finished => a

/-- Lets the program go on until a stop, which is announced, or to its end. -/
def go (fuel : Nat) (a : Agent σ) (mode : RunMode) : Option (Agent σ × List DebuggerMessage) :=
  let a := a.leave mode
  match a.context.runWithin fuel a.engine with
  | none => none
  | some (context, engine, none) => some ({ a with context, engine, phase := .finished }, [])
  | some (context, engine, some stop) =>
    some (send { a with context, engine, phase := .paused } (announcement context engine stop))

/-- Serves one message. -/
def receive (fuel : Nat) (a : Agent σ) (message : HostMessage) :
    Option (Agent σ × List DebuggerMessage) :=
  let (context, engine, reply, outcome) := perform a.context a.engine message
  let a := { a with context, engine }
  match outcome with
  | .go mode => a.go fuel mode
  | .serve =>
    match reply with
    | some message => some (a.send message)
    | none => some (a, [])

/-- Serves what the decoder holds, at most `limit` messages, until the program has ended or the link
is broken. -/
def serve (fuel : Nat) : (limit : Nat) → Agent σ → Option (Agent σ × List DebuggerMessage)
  | 0, a => some (a, [])
  | limit + 1, a =>
    if a.phase = .finished ∨ !a.connected then some (a, [])
    else
      match a.decoder.nextMessage HostMessage.decode? with
      | (decoder, none) => some ({ a with decoder }, [])
      | (decoder, some message) => do
        let (a, sent) ← receive fuel { a with decoder } message
        let (a, more) ← serve fuel limit a
        some (a, sent ++ more)

/-- Runs the program to its end without stopping, in at most `fuel` small steps: at every stop, it
goes on at once. -/
def runToEnd : (fuel : Nat) → Context → σ → Option (Context × σ)
  | 0, _, _ => none
  | fuel + 1, c, engine =>
    match Engine.advance c.hooks engine with
    | (engine, none) => runToEnd fuel c engine
    | (engine, some .finished) => some (c, engine)
    | (engine, some event) =>
      match c.onEvent engine event with
      | (c, some _) => runToEnd fuel (c.resume .run) engine
      | (c, none) => runToEnd fuel c engine

/-- The front end is gone: the program runs on to its end. -/
def hangUp (fuel : Nat) (a : Agent σ) : Option (Agent σ) :=
  match a.phase with
  | .finished => some { a with connected := false }
  | .greeting | .paused =>
    (runToEnd fuel (a.leave .run).context a.engine).map fun (context, engine) =>
      { a with context, engine, connected := false, phase := .finished }

/-- Takes bytes from the front end and serves them. A link that breaks meanwhile is the end of the
front end. -/
def feed (fuel : Nat) (a : Agent σ) (bytes : List UInt8) :
    Option (Agent σ × List DebuggerMessage) := do
  let a := { a with decoder := a.decoder.extend bytes }
  let (a, sent) ← serve fuel (a.decoder.weight + 1) a
  if a.connected then some (a, sent)
  else (a.hangUp fuel).map fun a => (a, sent)

/-- Serves a stream of reads to its end, and lets the program run to its own. -/
def serveReads (fuel : Nat) (a : Agent σ) : List Read → Option (Agent σ × List DebuggerMessage)
  | [] | .failed :: _ => (a.hangUp fuel).map fun a => (a, [])
  | .interrupted :: reads => serveReads fuel a reads
  | .bytes bytes :: reads => do
    let (a, sent) ← a.feed fuel bytes
    let (a, more) ← serveReads fuel a reads
    some (a, sent ++ more)

/-- A whole life of an agent: from its greeting to the end of its program. -/
def run (fuel : Nat) (engine : σ) (capacity : Option Nat) (reads : List Read) :
    Option (Agent σ × List DebuggerMessage) := do
  let (a, greeting) := start engine capacity
  let (a, sent) ← a.serveReads fuel reads
  some (a, greeting ++ sent)

end Agent

end ScriptDebugger.Debug
