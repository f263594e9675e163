import ScriptDebugger.Adapter.Body
import ScriptDebugger.Adapter.Host
import ScriptDebugger.Adapter.Input
import ScriptDebugger.Session.Start
import ScriptDebugger.Text.Line
/-!
# The adapter's server

The server answers the requests of one client. It launches programs, and has at most one session at
a time; a launch that succeeds ends the session before. Every request gets one response. What the
program prints and what the session notices become events, which follow the response to the request
that let it happen.

A result of `none` means that a program does not come to rest within the fuel.

## Main results

* `serve_nil` — an input that ends is answered by closing the session.
-/

namespace ScriptDebugger.Adapter

open Session (Inquiry Failure Notice StopCause Frontier PlacedBreakpoint)
open Wire (HostMessage)

/-- A session, and how much of what it shows has become events. -/
structure Live (π : Type) where
  /-- The session. -/
  session : Session π
  /-- How many printed lines were shown. -/
  shown : Nat := 0
  /-- How many notices were shown. -/
  noticed : Nat := 0

/-- The state of a server. -/
structure Server (π : Type) where
  /-- The settings. -/
  config : Config
  /-- The directory of a program whose launch names none. -/
  fallback : String
  /-- The session with the program launched last. -/
  live : Option (Live π) := none
  /-- How that program was launched. -/
  plan : Option LaunchPlan := none
  /-- The breakpoints that stand, under the path of the request that set them. -/
  breakpoints : List (String × List Int) := []

/-- Whether the server goes on after a request. -/
inductive Flow
  | more
  | stop
  deriving DecidableEq, Repr

/-- What the server is made with: where targets run, and how mappers are made. -/
structure Setting (π : Type) where
  /-- Launches a plan. -/
  launch : (fuel : Nat) → LaunchPlan → Option (Launch π)
  /-- Makes the mapper of a program from its directory and the workspace. -/
  mapperFor : (directory workspace : String) → Session.Mapper

/-- A request. -/
structure Request where
  /-- Its number. -/
  seq : Nat
  /-- What is to be done. -/
  command : String
  /-- What belongs to the command; null where there is nothing. -/
  arguments : Json

/-- The request that a message is. -/
def Message.request? (m : Message) : Option Request :=
  match m.content with
  | .request command arguments => some ⟨m.seq, command, arguments.getD .null⟩
  | _ => none

namespace Request

/-- The response to a request that succeeded. -/
def succeed (r : Request) (body : Option Json) : Content :=
  .response r.seq true r.command none (body.map Json.canonical)

/-- The response to a request that failed. -/
def fail (r : Request) (message : String) : Content :=
  .response r.seq false r.command (some message) none

/-- The response with an outcome. -/
def respond (r : Request) : Except String Json → Content
  | .ok body => r.succeed (some body)
  | .error message => r.fail message

end Request

/-! ## Events -/

/-- An event with a body. -/
def eventOf (name : String) (body : Json) : Content := .event name (some body.canonical)

/-- The event for text that the user is to see. -/
def outputEvent (category text : String) : Content := eventOf "output" (outputBody category text)

/-- The events for a printed line, which may hold line ends of its own. -/
def lineEvents (line : String) : List Content :=
  (Text.splitLines [] (line.toList ++ ['\n'])).map fun cs =>
    outputEvent "stdout" (String.ofList (cs ++ ['\n']))

/-- The event for a notice. -/
def noticeEvent : Notice → Content
  | .loaded path => outputEvent "console" s!"Loaded {path}\n"
  | .stopped cause => eventOf "stopped" (stopBody cause)
  | .ended => .event "terminated" none

namespace Live

variable {π : Type} [Target π]

/-- The events for all that was not shown yet. -/
def drain (l : Live π) : Live π × List Content :=
  let printed := Target.printed l.session.connection.peer
  let notices := l.session.notices
  ({ l with shown := printed.length, noticed := notices.length },
    (printed.drop l.shown).flatMap lineEvents ++ (notices.drop l.noticed).map noticeEvent)

/-- Ends the session: the program runs on to its end. -/
def close (fuel : Nat) (l : Live π) : Option (List Content) :=
  (l.session.close fuel).map fun session => (drain { l with session }).2

/-- Ends the session together with its program. -/
def abandon (l : Live π) : List Content :=
  let session := { l.session with connection := l.session.connection.markEnded }
  (drain { l with session }).2

end Live

namespace Server

variable {π : Type} [Target π] {α : Type}

/-- The message for a request that needs a session where there is none. -/
def notLaunched : String := "no program has been launched"

/-- The outcome of a step, for the user. -/
def worded (outcome : Except Failure α) : Except String α := outcome.mapError Failure.message

/-- Asks the agent of a session. -/
def ask (fuel : Nat) (s : Server π) (l : Live π) (q : Inquiry α) :
    Option (Server π × Live π × Except Failure α) :=
  (l.session.ask fuel q).map fun (session, outcome) =>
    let l := { l with session }
    ({ s with live := some l }, l, outcome)

/-- Shows what was not shown yet. -/
def drained (s : Server π) : Server π × List Content :=
  match s.live with
  | none => (s, [])
  | some l =>
    let (l, events) := l.drain
    ({ s with live := some l }, events)

/-- Answers a request by one inquiry. The arguments are looked at only if there is a session. -/
def inquire (fuel : Nat) (s : Server π) (r : Request)
    (inquiry : Frontier → Except String (Inquiry α)) (body : α → Json) :
    Option (Server π × List Content) :=
  match s.live with
  | none => some (s, [r.fail notLaunched])
  | some l =>
    match inquiry l.session.frontier with
    | .error message => some (s, [r.fail message])
    | .ok q => (s.ask fuel l q).map fun (s, _, outcome) =>
      (s, [r.respond ((worded outcome).map body)])

/-- A number among the arguments, with a value for where it is missing. -/
def numberD (r : Request) (key : String) (default : Nat) : Except String Nat :=
  ((number? r.arguments key).map (·.getD default)).mapError ArgumentError.message

/-- How many frames are shown where a request does not say. -/
def defaultLevels : Nat := Debug.maxFrames

/-- The inquiry of a request for frames; zero levels mean as many as there may be. -/
def stackInquiry (r : Request) (f : Frontier) :
    Except String (Inquiry (List Wire.StackFrame)) := do
  let start ← numberD r "startFrame" 0
  let levels ← numberD r "levels" 0
  return Session.stack f start (if levels = 0 then defaultLevels else levels)

/-- The inquiry of a request to change a variable. -/
def assignInquiry (r : Request) : Except String (Inquiry Wire.Variable) := do
  let reference ← numberD r "variablesReference" 0
  (Session.assignText reference (textOf r.arguments "name") (textOf r.arguments "value")).mapError
    Failure.message

/-! ## Breakpoints -/

/-- The breakpoints that stand under a path. -/
def standing (s : Server π) (path : String) : List Int :=
  ((s.breakpoints.find? fun b => b.1 == path).map Prod.snd).getD []

/-- Forgets the breakpoints under a path. -/
def forget (s : Server π) (path : String) : Server π :=
  { s with breakpoints := s.breakpoints.filter fun b => b.1 != path }

/-- Removes breakpoints; that one of them cannot be removed does not matter. -/
def removeAll (fuel : Nat) (s : Server π) (l : Live π) :
    List Int → Option (Server π × Live π)
  | [] => some (s, l)
  | id :: rest => do
    let (s, l, _) ← s.ask fuel l (Session.removeBreakpoint id)
    removeAll fuel s l rest

/-- Sets breakpoints, up to the first one that fails. -/
def setAll (fuel : Nat) (s : Server π) (l : Live π) (path : String) :
    List (Nat × Option Nat) → Option (Server π × Except Failure (List PlacedBreakpoint))
  | [] => some (s, .ok [])
  | (line, column) :: rest => do
    let (s, l, outcome) ←
      s.ask fuel l (Session.setBreakpoint l.session.frontier path line column)
    match outcome with
    | .error e => some (s, .error e)
    | .ok placed =>
      let (s, placedRest) ← setAll fuel s l path rest
      some (s, placedRest.map (placed :: ·))

/-- Replaces the breakpoints of a file by those that a request asks for. The arguments are looked
at first. -/
def setBreakpoints (fuel : Nat) (s : Server π) (r : Request) :
    Option (Server π × List Content) :=
  let path := sourcePath r.arguments
  match askedBreakpoints r.arguments with
  | .error e => some (s, [r.fail e.message])
  | .ok asked =>
    match s.live with
    | none => some (s, [r.fail notLaunched])
    | some l => do
      let (s, l) ← (s.forget path).removeAll fuel l (s.standing path)
      let (s, outcome) ← s.setAll fuel l path asked
      match outcome with
      | .error e => some (s, [r.fail e.message])
      | .ok placed =>
        let ids := (placed.filter (·.isVerified)).map (·.id)
        some
          ({ s with breakpoints := (path, ids) :: s.breakpoints },
            [r.succeed (some (breakpointsBody placed))])

/-! ## Running -/

/-- The event for a program that could not be resumed, unless the session has ended, which shows by
itself. -/
def resumeEvents : Except Failure StopCause → List Content
  | .ok _ | .error .closed => []
  | .error e => [outputEvent "stderr" (e.message ++ "\n")]

/-- Lets the program go on until it stops or ends. -/
def proceed (fuel : Nat) (s : Server π) (l : Live π) (message : HostMessage) :
    Option (Server π × List Content) :=
  (s.ask fuel l (Session.resume message)).map fun (s, _, outcome) =>
    let (s, events) := s.drained
    (s, events ++ resumeEvents outcome)

/-- Answers a request to go on: the response comes at once, the stop is an event. -/
def resume (fuel : Nat) (s : Server π) (r : Request) (message : HostMessage) (body : Option Json) :
    Option (Server π × List Content) :=
  match s.live with
  | none => some (s, [r.fail notLaunched])
  | some l => (s.proceed fuel l message).map fun (s, events) => (s, r.succeed body :: events)

/-- Answers the end of the configuration: the program is shown as stopped at its entry, or goes
on if its launch said so. -/
def configured (fuel : Nat) (s : Server π) (r : Request) : Option (Server π × List Content) :=
  let response := r.succeed none
  if (s.plan.map (·.stopOnEntry)).getD true then
    some (s, [response, eventOf "stopped" (stoppedBody "entry" none)])
  else
    match s.live with
    | none => some (s, [response])
    | some l => (s.proceed fuel l .proceed).map fun (s, events) => (s, response :: events)

/-! ## Launching -/

/-- The message for a launch that failed. -/
def launchFailure (reason : String) : String := "failed to start debug session: " ++ reason

/-- Ends the session, if there is one. -/
def closeSession (fuel : Nat) (s : Server π) : Option (Server π × List Content) :=
  match s.live with
  | none => some (s, [])
  | some l => (l.close fuel).map fun events => ({ s with live := none }, events)

/-- Starts the session with a target that is a peer, in the place of the session before. -/
def startSession (fuel : Nat) (setting : Setting π) (s : Server π) (r : Request)
    (plan : LaunchPlan) (peer : π) (opening : List UInt8) : Option (Server π × List Content) := do
  let options : Session.Options := ⟨plan.program, plan.workspace, plan.trace⟩
  match ← Session.start fuel (Session.Connection.accept peer opening) options setting.mapperFor with
  | .error (e, _) => some (s, [r.fail (launchFailure e.message)])
  | .ok session =>
    let (s, ended) ← s.closeSession fuel
    let (s, events) := drained { s with live := some { session }, plan := some plan }
    some (s, ended ++ r.succeed none :: .event "initialized" none :: events)

/-- The plan of a request to launch, if its arguments are readable. -/
def planOf? (s : Server π) (r : Request) : Option LaunchPlan :=
  (LaunchArguments.ofJson? r.arguments).map fun arguments => arguments.resolve s.config s.fallback

/-- Answers a request to launch a program. -/
def launch (fuel : Nat) (setting : Setting π) (s : Server π) (r : Request) :
    Option (Server π × List Content) :=
  match s.planOf? r with
  | none => some (s, [r.fail "invalid launch arguments: ..."])
  | some plan => do
    match ← setting.launch fuel plan with
    | .failed reason => some (s, [r.fail (launchFailure reason)])
    | .exited status printed =>
      some (s, r.fail (launchFailure (exitMessage status)) :: printed.flatMap lineEvents)
    | .attached peer opening => s.startSession fuel setting r plan peer opening

/-- Answers the last request: the session ends, and its program with it if that is asked for. -/
def disconnect (fuel : Nat) (s : Server π) (r : Request) : Option (Server π × List Content) :=
  let terminate :=
    r.command == "terminate" ||
      ((r.arguments.member? "terminateDebuggee").bind Json.bool?).getD false
  match s.live with
  | none => some (s, [r.succeed none])
  | some l =>
    let events := if terminate then some l.abandon else l.close fuel
    events.map fun events => ({ s with live := none }, events ++ [r.succeed none])

/-! ## Serving -/

/-- Answers a request: the state after it, what is sent, and whether the server goes on. -/
def handle (fuel : Nat) (setting : Setting π) (s : Server π) (r : Request) :
    Option (Server π × List Content × Flow) :=
  let more (result : Option (Server π × List Content)) : Option (Server π × List Content × Flow) :=
    result.map fun (s, contents) => (s, contents, .more)
  match r.command with
  | "initialize" => more (some (s, [r.succeed (some capabilities)]))
  | "launch" => more (s.launch fuel setting r)
  | "setBreakpoints" => more (s.setBreakpoints fuel r)
  | "breakpointLocations" =>
    more (s.inquire fuel r
      (fun f => (numberD r "line" 1).map (Session.locations f (sourcePath r.arguments)))
      locationsBody)
  | "configurationDone" => more (s.configured fuel r)
  | "threads" => more (some (s, [r.succeed (some threads)]))
  | "stackTrace" => more (s.inquire fuel r (stackInquiry r) stackBody)
  | "scopes" =>
    more (s.inquire fuel r (fun f => (numberD r "frameId" 0).map (Session.scopes f)) scopesBody)
  | "variables" =>
    more (s.inquire fuel r (fun _ => (numberD r "variablesReference" 0).map Session.variablesBehind)
      variablesBody)
  | "setVariable" => more (s.inquire fuel r (fun _ => assignInquiry r) newValueBody)
  | "continue" =>
    more (s.resume fuel r .proceed (some (.object [("allThreadsContinued", .bool true)])))
  | "next" => more (s.resume fuel r .next none)
  | "stepIn" => more (s.resume fuel r .stepIn none)
  | "stepOut" => more (s.resume fuel r .stepOut none)
  | "disconnect" | "terminate" =>
    (s.disconnect fuel r).map fun (s, contents) => (s, contents, .stop)
  | command => more (some (s, [r.fail ("unsupported request " ++ command)]))

/-- Serves requests until one ends the run or there are no more. The session ends in the end. What
is sent comes request by request, and then what the end brings; the flow says whether a request
ended the run. -/
def serve (fuel : Nat) (setting : Setting π) (s : Server π) :
    List Request → Option (List (List Content) × List Content × Flow)
  | [] => (s.closeSession fuel).map fun (_, events) => ([], events, .more)
  | r :: rest => do
    match ← s.handle fuel setting r with
    | (s, contents, .stop) =>
      let (_, events) ← s.closeSession fuel
      some ([contents], events, .stop)
    | (s, contents, .more) =>
      let (sent, events, flow) ← serve fuel setting s rest
      some (contents :: sent, events, flow)

theorem serve_nil (fuel : Nat) (setting : Setting π) (s : Server π) :
    s.serve fuel setting [] = (s.closeSession fuel).map fun (_, events) => ([], events, .more) :=
  rfl

/-- All that is sent, numbered from one. -/
def transcript (sent : List (List Content)) (last : List Content) : List Message :=
  Message.number 1 (sent.flatten ++ last)

/-- Serves the bytes of a whole input: what is sent, and why the input could not be read on. -/
def run (fuel : Nat) (setting : Setting π) (s : Server π) (bytes : List UInt8) :
    Option (List Message × Option InputError) := do
  let (messages, ending) := Input.readAll bytes
  let (sent, last, flow) ← s.serve fuel setting (messages.filterMap Message.request?)
  some (transcript sent last, if flow = .stop then none else ending)

end Server

end ScriptDebugger.Adapter
