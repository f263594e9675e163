import ScriptDebugger.Adapter.Launch
import ScriptDebugger.CommandLine
import ScriptDebugger.Debug.Agent
import ScriptDebugger.Files
import ScriptDebugger.Machine.Inspect
import ScriptDebugger.Session.Connection
/-!
# Hosts

A host is where targets run: its files, and the executables that are this program. Launching a plan
there may fail, may end before the target is a peer, or yields a target that waits for the session.

## Main results

* `launch_of_refusal` — what cannot be used is not started.
-/

namespace ScriptDebugger.Adapter

/-- A peer that prints lines. -/
class Target (π : Type) extends Session.Peer π where
  /-- The lines printed so far. -/
  printed : π → List String

instance : Target (Debug.Agent Machine.State) where
  printed agent := agent.engine.output

/-- Where targets run. -/
structure Host where
  /-- The text of the file at a path, seen from a directory. -/
  text? : (directory path : String) → Option String
  /-- The reason for which a plan's executable or directory cannot be used, if there is one. -/
  refusal? : LaunchPlan → Option String

/-- What became of a launch. -/
inductive Launch (π : Type)
  /-- The target could not be started. -/
  | failed (reason : String)
  /-- The target printed lines and ended with a status before it was a peer. -/
  | exited (status : Nat) (printed : List String)
  /-- The target is a peer and has sent its first bytes. -/
  | attached (peer : π) (opening : List UInt8)

/-- The message for a target that ended too soon. -/
def exitMessage (status : Nat) : String :=
  s!"I/O error: target exited before attaching (exit status: {status})"

namespace Host

/-- Whether a text of a plan holds the character that ends texts for an operating system. -/
def holdsNul (plan : LaunchPlan) : Bool :=
  (plan.program :: plan.workspace :: plan.portVariable :: plan.executable.toList ++ plan.args).any
    (·.contains '\x00')

/-- Why an executable that is not this program cannot be run: no file is runnable, and a name
without a slash is not looked for among the files. -/
def executableError (files : FileTree) (workspace path : String) : PathError :=
  if !path.contains '/' then .missing
  else
    match files.place workspace path with
    | .error e => e
    | .ok place =>
      if files.isDirectory place || files.isFile place then .notRunnable else .missing

/-- The reason for which a plan cannot be used among files, where `executables` are this
program. -/
def refusalAmong? (files : FileTree) (executables : List String) (plan : LaunchPlan) :
    Option String :=
  if holdsNul plan then some "nul byte found in provided data"
  else
    match files.directory plan.workspace with
    | .error e => some e.message
    | .ok _ =>
      (plan.executable.filter fun path => !executables.contains path).map fun path =>
        (executableError files plan.workspace path).message

/-- A host with files; `executables` are those that are this program. -/
def ofFiles (files : FileTree) (executables : List String) : Host :=
  ⟨files.readText?, refusalAmong? files executables⟩

/-- Whether a plan's target is told of the session: it looks for the port under a fixed name. -/
def tellsPort (plan : LaunchPlan) : Bool := plan.portVariable == CommandLine.portVariable

/-- The status of an adapter that has no requests to serve: only its settings can make it fail. -/
def adapterStatus (h : Host) (directory : String) : (config : Option String) → Nat
  | none => 0
  | some path =>
    match (h.text? directory path).map Config.ofText with
    | some (.ok _) => 0
    | _ => 1

/-- Runs the command line of a plan's target. A target that is not told of a session by its
environment runs on its own. -/
def launch (fuel : Nat) (h : Host) (plan : LaunchPlan) :
    Option (Launch (Debug.Agent Machine.State)) :=
  match h.refusal? plan with
  | some reason => some (.failed reason)
  | none =>
    match CommandLine.parse none (plan.args ++ [plan.program]) with
    | .error _ => some (.exited 2 [])
    | .ok (.adapter config _ _) => some (.exited (h.adapterStatus plan.workspace config) [])
    | .ok (.run program port _) =>
      match Machine.State.load (h.text? plan.workspace) program with
      | .error _ => some (.exited 1 [])
      | .ok machine =>
        if port.isNone && tellsPort plan then
          let (agent, greeting) := Debug.Agent.start machine none
          some (.attached agent (Session.bytesOf greeting))
        else (Machine.State.runWithin fuel machine).map fun machine => .exited 0 machine.output

theorem launch_of_refusal {fuel : Nat} {h : Host} {plan : LaunchPlan} {reason : String}
    (hr : h.refusal? plan = some reason) : h.launch fuel plan = some (.failed reason) := by
  simp [launch, hr]

end Host

end ScriptDebugger.Adapter
