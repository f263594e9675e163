import ScriptDebugger.Proofs.Adapter.Requests
/-!
# Requests step by step

What the serving thread does for a request is a task: it writes, asks the session and waits for the
outcome, launches a program and waits whether it starts, leaves the program to a worker, or ends the
session. What it does next may depend on an outcome, and an outcome may be any.

## Main results

* `Task.acc` — a task comes to its end.
* `Desk.task_owes` — every way through the task of a request writes one response.
-/

namespace ScriptDebugger.Adapter

open Session (Inquiry Failure Frontier PlacedBreakpoint)
open Wire (HostMessage)

/-- What the serving thread keeps from one request to the next. -/
structure Desk where
  /-- The settings. -/
  config : Config
  /-- The directory of a program whose launch names none. -/
  fallback : String
  /-- How paths and positions are turned for the session, if there is one. -/
  session : Option Frontier
  /-- How the program was launched. -/
  plan : Option LaunchPlan
  /-- The breakpoints that stand, under the path of the request that set them. -/
  breakpoints : List (String × List Int)

/-- What the serving thread does until a request is dealt with. -/
inductive Task : Type 1
  /-- Nothing more. It keeps the plan and the breakpoints that stand now. -/
  | finish (plan : Option LaunchPlan) (breakpoints : List (String × List Int))
  /-- It writes. -/
  | write (content : Content) (next : Task)
  /-- It asks the session and waits for the outcome. -/
  | ask {α : Type} (q : Inquiry α) (next : Except Failure α → Task)
  /-- It launches a program and waits until it has started or failed to start. -/
  | launch (plan : LaunchPlan) (next : Except String Frontier → Task)
  /-- It lets a worker make the program go on. -/
  | spawn (message : HostMessage) (next : Task)
  /-- It ends the session, and the program with it if that is asked for. -/
  | close (terminate : Bool) (next : Task)

/-- What may be left of a task after one step of it. -/
inductive Task.Next : Task → Task → Prop
  | write {content : Content} {next : Task} : Next (.write content next) next
  | ask {α : Type} {q : Inquiry α} {next : Except Failure α → Task} (outcome : Except Failure α) :
    Next (.ask q next) (next outcome)
  | launch {plan : LaunchPlan} {next : Except String Frontier → Task}
    (outcome : Except String Frontier) : Next (.launch plan next) (next outcome)
  | spawn {message : HostMessage} {next : Task} : Next (.spawn message next) next
  | close {terminate : Bool} {next : Task} : Next (.close terminate next) next

/-- A task comes to its end, whatever the outcomes are. -/
theorem Task.acc (t : Task) : Acc (Function.swap Task.Next) t := by
  induction t with
  | finish plan breakpoints => exact .intro _ nofun
  | write content next ih => exact .intro _ fun | _, .write => ih
  | ask q next ih => exact .intro _ fun | _, .ask outcome => ih outcome
  | launch plan next ih => exact .intro _ fun | _, .launch outcome => ih outcome
  | spawn message next ih => exact .intro _ fun | _, .spawn => ih
  | close terminate next ih => exact .intro _ fun | _, .close => ih

/-! ## The tasks of requests -/

namespace Task

/-- Removes breakpoints before it goes on. -/
def removeAll (next : Task) : List Int → Task
  | [] => next
  | id :: rest => .ask (Session.removeBreakpoint id) fun _ => removeAll next rest

/-- Sets breakpoints, up to the first one that fails, and goes on with what came of it. -/
def setAll (f : Frontier) (path : String) :
    List (Nat × Option Nat) → (Except Failure (List PlacedBreakpoint) → Task) → Task
  | [], next => next (.ok [])
  | (line, column) :: rest, next =>
    .ask (Session.setBreakpoint f path line column) fun
      | .error e => next (.error e)
      | .ok placed => setAll f path rest fun outcome => next (outcome.map (placed :: ·))

end Task

/-- Whether a request is the last one that is served. -/
def Request.isLast (r : Request) : Bool := r.command == "disconnect" || r.command == "terminate"

/-- Whether the last request ends the program as well. -/
def Request.terminates (r : Request) : Bool :=
  r.command == "terminate" ||
    ((r.arguments.member? "terminateDebuggee").bind Json.bool?).getD false

namespace Desk

variable {α : Type}

/-- The breakpoints that stand under a path. -/
def standing (d : Desk) (path : String) : List Int :=
  ((d.breakpoints.find? fun b => b.1 == path).map Prod.snd).getD []

/-- Forgets the breakpoints under a path. -/
def forget (d : Desk) (path : String) : Desk :=
  { d with breakpoints := d.breakpoints.filter fun b => b.1 != path }

/-- Keeps everything. -/
def done (d : Desk) : Task := .finish d.plan d.breakpoints

/-- Tells that a request succeeded. -/
def succeed (d : Desk) (r : Request) (body : Option Json) : Task :=
  .write (r.succeed body) d.done

/-- Tells that a request failed. -/
def fail (d : Desk) (r : Request) (message : String) : Task :=
  .write (r.fail message) d.done

/-- Answers by one inquiry. -/
def inquire (d : Desk) (r : Request) (inquiry : Frontier → Except String (Inquiry α))
    (body : α → Json) : Task :=
  match d.session with
  | none => d.fail r Server.notLaunched
  | some f =>
    match inquiry f with
    | .error message => d.fail r message
    | .ok q => .ask q fun outcome =>
      .write (r.respond ((Server.worded outcome).map body)) d.done

/-- Replaces the breakpoints of a file. -/
def setBreakpoints (d : Desk) (r : Request) : Task :=
  let path := sourcePath r.arguments
  match askedBreakpoints r.arguments with
  | .error e => d.fail r e.message
  | .ok asked =>
    match d.session with
    | none => d.fail r Server.notLaunched
    | some f =>
      let after : Except Failure (List PlacedBreakpoint) → Task
        | .error e => (d.forget path).fail r e.message
        | .ok placed =>
          let ids := (placed.filter (·.isVerified)).map (·.id)
          { d with breakpoints := (path, ids) :: (d.forget path).breakpoints }.succeed r
            (some (breakpointsBody placed))
      Task.removeAll (Task.setAll f path asked after) (d.standing path)

/-- Answers a request to go on. -/
def resume (d : Desk) (r : Request) (message : HostMessage) (body : Option Json) : Task :=
  match d.session with
  | none => d.fail r Server.notLaunched
  | some _ => .write (r.succeed body) (.spawn message d.done)

/-- Answers the end of the configuration. -/
def configured (d : Desk) (r : Request) : Task :=
  .write (r.succeed none) <|
    if (d.plan.map (·.stopOnEntry)).getD true then
      .write (eventOf "stopped" (stoppedBody "entry" none)) d.done
    else
      match d.session with
      | none => d.done
      | some _ => .spawn .proceed d.done

/-- Answers a request to launch a program. -/
def launch (d : Desk) (r : Request) : Task :=
  match LaunchArguments.ofJson? r.arguments with
  | none => d.fail r "invalid launch arguments: ..."
  | some arguments =>
    let plan := arguments.resolve d.config d.fallback
    .launch plan fun
      | .error reason => d.fail r (Server.launchFailure reason)
      | .ok _ =>
        .write (r.succeed none)
          (.write (.event "initialized" none) { d with plan := some plan }.done)

/-- Answers the last request. -/
def disconnect (d : Desk) (r : Request) : Task :=
  match d.session with
  | none => d.succeed r none
  | some _ => .close r.terminates (d.succeed r none)

/-- What is done for a request. -/
def task (d : Desk) (r : Request) : Task :=
  match r.command with
  | "initialize" => d.succeed r (some capabilities)
  | "launch" => d.launch r
  | "setBreakpoints" => d.setBreakpoints r
  | "breakpointLocations" =>
    d.inquire r
      (fun f => (Server.numberD r "line" 1).map (Session.locations f (sourcePath r.arguments)))
      locationsBody
  | "configurationDone" => d.configured r
  | "threads" => d.succeed r (some threads)
  | "stackTrace" => d.inquire r (Server.stackInquiry r) stackBody
  | "scopes" =>
    d.inquire r (fun f => (Server.numberD r "frameId" 0).map (Session.scopes f)) scopesBody
  | "variables" =>
    d.inquire r
      (fun _ => (Server.numberD r "variablesReference" 0).map Session.variablesBehind) variablesBody
  | "setVariable" => d.inquire r (fun _ => Server.assignInquiry r) newValueBody
  | "continue" => d.resume r .proceed (some (.object [("allThreadsContinued", .bool true)]))
  | "next" => d.resume r .next none
  | "stepIn" => d.resume r .stepIn none
  | "stepOut" => d.resume r .stepOut none
  | "disconnect" | "terminate" => d.disconnect r
  | command => d.fail r ("unsupported request " ++ command)

end Desk

/-! ## One response on every way -/

/-- A content is the response to a request. It says that the request failed exactly if there is a
message. -/
def Content.Answers (c : Content) (r : Request) : Prop :=
  ∃ success message body, c = .response r.seq success r.command message body ∧
    (success = false ↔ message.isSome = true)

/-- A content is an event. -/
def Content.IsEvent (c : Content) : Prop := ∃ name body, c = .event name body

namespace Request

variable (r : Request)

theorem answers_succeed (body : Option Json) : (r.succeed body).Answers r :=
  ⟨_, _, _, rfl, by simp⟩

theorem answers_fail (message : String) : (r.fail message).Answers r := ⟨_, _, _, rfl, by simp⟩

theorem answers_respond (outcome : Except String Json) : (r.respond outcome).Answers r := by
  cases outcome with
  | error message => exact r.answers_fail message
  | ok body => exact r.answers_succeed (some body)

end Request

/-- Whatever the outcomes are, a task writes so many responses to a request, apart from events. -/
inductive Task.Owes (r : Request) : Task → Nat → Prop
  /-- There is nothing left to write. -/
  | finish (plan : Option LaunchPlan) (breakpoints : List (String × List Int)) :
    Owes r (.finish plan breakpoints) 0
  /-- It writes a response. -/
  | response {content : Content} {next : Task} {n : Nat} (hcontent : content.Answers r)
    (h : Owes r next n) : Owes r (.write content next) (n + 1)
  /-- It writes an event. -/
  | event {content : Content} {next : Task} {n : Nat} (hcontent : content.IsEvent)
    (h : Owes r next n) : Owes r (.write content next) n
  /-- It asks. -/
  | ask {α : Type} {q : Inquiry α} {next : Except Failure α → Task} {n : Nat}
    (h : ∀ outcome, Owes r (next outcome) n) : Owes r (.ask q next) n
  /-- It launches. -/
  | launch {plan : LaunchPlan} {next : Except String Frontier → Task} {n : Nat}
    (h : ∀ outcome, Owes r (next outcome) n) : Owes r (.launch plan next) n
  /-- It leaves the program to a worker. -/
  | spawn {message : HostMessage} {next : Task} {n : Nat} (h : Owes r next n) :
    Owes r (.spawn message next) n
  /-- It ends the session. -/
  | close {terminate : Bool} {next : Task} {n : Nat} (h : Owes r next n) :
    Owes r (.close terminate next) n

namespace Task

variable {r : Request} {n : Nat}

theorem removeAll_owes {next : Task} (h : next.Owes r n) (ids : List Int) :
    (removeAll next ids).Owes r n := by
  induction ids with
  | nil => exact h
  | cons id rest ih => exact .ask fun _ => ih

theorem setAll_owes {f : Frontier} {path : String} (asked : List (Nat × Option Nat))
    {next : Except Failure (List PlacedBreakpoint) → Task}
    (h : ∀ outcome, (next outcome).Owes r n) :
    (setAll f path asked next).Owes r n := by
  induction asked generalizing next with
  | nil => exact h _
  | cons position rest ih =>
      refine .ask fun outcome => ?_
      cases outcome with
      | error e => exact h _
      | ok placed => exact ih fun outcome => h _

end Task

namespace Desk

variable {α : Type} (d : Desk) (r : Request)

theorem done_owes : d.done.Owes r 0 := .finish _ _

theorem succeed_owes (body : Option Json) : (d.succeed r body).Owes r 1 :=
  .response (r.answers_succeed body) (d.done_owes r)

theorem fail_owes (message : String) : (d.fail r message).Owes r 1 :=
  .response (r.answers_fail message) (d.done_owes r)

theorem inquire_owes (inquiry : Frontier → Except String (Inquiry α)) (body : α → Json) :
    (d.inquire r inquiry body).Owes r 1 := by
  unfold inquire
  split
  · exact d.fail_owes r _
  · split
    · exact d.fail_owes r _
    · exact .ask fun outcome => .response (r.answers_respond _) (d.done_owes r)

theorem setBreakpoints_owes : (d.setBreakpoints r).Owes r 1 := by
  unfold setBreakpoints
  dsimp only
  split
  · exact d.fail_owes r _
  · split
    · exact d.fail_owes r _
    · refine Task.removeAll_owes (Task.setAll_owes _ fun outcome => ?_) _
      cases outcome with
      | error e => exact Desk.fail_owes _ r _
      | ok placed => exact Desk.succeed_owes _ r _

theorem resume_owes (message : HostMessage) (body : Option Json) :
    (d.resume r message body).Owes r 1 := by
  unfold resume
  split
  · exact d.fail_owes r _
  · exact .response (r.answers_succeed body) (.spawn (d.done_owes r))

theorem configured_owes : (d.configured r).Owes r 1 := by
  refine .response (r.answers_succeed none) ?_
  split
  · exact .event ⟨_, _, rfl⟩ (d.done_owes r)
  · split
    · exact d.done_owes r
    · exact .spawn (d.done_owes r)

theorem launch_owes : (d.launch r).Owes r 1 := by
  unfold launch
  split
  · exact d.fail_owes r _
  · refine .launch fun outcome => ?_
    cases outcome with
    | error reason => exact d.fail_owes r _
    | ok f => exact .response (r.answers_succeed none) (.event ⟨_, _, rfl⟩ (Desk.done_owes _ r))

theorem disconnect_owes : (d.disconnect r).Owes r 1 := by
  unfold disconnect
  split
  · exact d.succeed_owes r none
  · exact .close (d.succeed_owes r none)

/-- Every way through the task of a request writes one response. -/
theorem task_owes : (d.task r).Owes r 1 := by
  unfold task
  split
  · exact d.succeed_owes r _
  · exact d.launch_owes r
  · exact d.setBreakpoints_owes r
  · exact d.inquire_owes r _ _
  · exact d.configured_owes r
  · exact d.succeed_owes r _
  · exact d.inquire_owes r _ _
  · exact d.inquire_owes r _ _
  · exact d.inquire_owes r _ _
  · exact d.inquire_owes r _ _
  · exact d.resume_owes r _ _
  · exact d.resume_owes r _ _
  · exact d.resume_owes r _ _
  · exact d.resume_owes r _ _
  · exact d.disconnect_owes r
  · exact d.disconnect_owes r
  · exact d.fail_owes r _

end Desk

end ScriptDebugger.Adapter
