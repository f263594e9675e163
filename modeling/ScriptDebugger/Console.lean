import ScriptDebugger.Adapter.Server
/-!
# Commands

What the commands of the command line do: the status that they end with, the lines that a program
prints, and the messages that the adapter sends.

## Main results

* `execute_usage` — a command line that is refused ends with the status 2.
-/

namespace ScriptDebugger.Console

open Adapter

/-- The status of a success. -/
def success : Nat := 0

/-- The status of a failure. -/
def failure : Nat := 1

/-- The status of a command line that is refused. -/
def misuse : Nat := 2

/-- What a command did. -/
structure Outcome where
  /-- The status that it ends with. -/
  status : Nat
  /-- The lines printed by a program. -/
  printed : List String := []
  /-- The messages sent by the adapter. -/
  sent : List Message := []

/-- Runs a program on its own; `text?` gives the text at a path. -/
def runProgram (fuel : Nat) (text? : String → Option String) (program : String) : Option Outcome :=
  match Machine.State.load text? program with
  | .error _ => some { status := failure }
  | .ok machine => (Machine.State.runWithin fuel machine).map fun machine =>
    { status := success, printed := machine.output }

/-- How the adapter runs on a host: programs are their own sources. -/
def setting (host : Host) : Setting (Debug.Agent Machine.State) where
  launch fuel plan := host.launch fuel plan
  mapperFor _ _ := .identity

/-- Serves the adapter on a whole input. -/
def serveAdapter (fuel : Nat) (host : Host) (config : Config) (directory : String)
    (input : List UInt8) : Option Outcome :=
  (Server.run fuel (setting host) { config, fallback := directory } input).map
    fun (sent, ending) => { status := if ending.isNone then success else failure, sent }

/-- The settings that a command line names: the defaults, or those of a file. -/
def configOf (files : FileTree) (directory : String) : Option String → Except ConfigError Config
  | none => .ok {}
  | some path => Config.ofFile (files.read? directory path)

/-- Runs a command line in a directory among files; `environment` is the port of a debugger that
the environment names. No debugger waits at any port. -/
def execute (fuel : Nat) (files : FileTree) (directory : String) (environment : Option String)
    (args : List String) (input : List UInt8) : Option Outcome :=
  match CommandLine.parse environment args with
  | .error _ => some { status := misuse }
  | .ok (.run program _ _) => runProgram fuel (files.readText? directory) program
  | .ok (.adapter config _ _) =>
    match configOf files directory config with
    | .error _ => some { status := failure }
    | .ok config => serveAdapter fuel (Host.ofFiles files []) config directory input

theorem execute_usage {fuel : Nat} {files : FileTree} {directory : String}
    {environment : Option String} {args : List String} {input : List UInt8}
    {e : CommandLine.UsageError} (h : CommandLine.parse environment args = .error e) :
    execute fuel files directory environment args input = some { status := misuse } := by
  simp [execute, h]

end ScriptDebugger.Console
