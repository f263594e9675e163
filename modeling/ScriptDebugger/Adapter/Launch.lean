import ScriptDebugger.Adapter.Config
import ScriptDebugger.Json.Fields
import ScriptDebugger.Json.Outline
/-!
# Launch plans

A request to launch names the program and may name more. The plan lays the request over the
settings: what the request says wins, and what neither says has a default.

## Main results

* `resolve_executable`, `resolve_args` — the request wins over the settings.
-/

namespace ScriptDebugger.Adapter

/-- What a request to launch says. -/
structure LaunchArguments where
  /-- The path of the program. -/
  program : String
  /-- The directory to run in. -/
  cwd : Option String
  /-- Whether the program stops before its first statement. -/
  stopOnEntry : Option Bool
  /-- Whether the agent is asked for a log. -/
  trace : Option Bool
  /-- The target's executable. -/
  runtimeExecutable : Option String
  /-- The arguments in front of the program's path. -/
  runtimeArgs : Option (List String)
  deriving DecidableEq, Repr

/-- How a program is launched. -/
structure LaunchPlan where
  /-- The path of the program. -/
  program : String
  /-- The directory to run in. -/
  workspace : String
  /-- Whether the program stops before its first statement. -/
  stopOnEntry : Bool
  /-- Whether the agent is asked for a log. -/
  trace : Bool
  /-- The target's executable; none stands for the adapter's own. -/
  executable : Option String
  /-- The arguments in front of the program's path. -/
  args : List String
  /-- The environment variable that tells the target where to ask for a session. -/
  portVariable : String
  deriving DecidableEq, Repr

/-- The names of the launch arguments. -/
def LaunchArguments.names : List String :=
  ["program", "cwd", "stopOnEntry", "trace", "runtimeExecutable", "runtimeArgs"]

/-- The launch arguments that a document is. -/
def LaunchArguments.ofJson? (j : Json) : Option LaunchArguments :=
  match j.fields? names with
  | some [some program, cwd, stopOnEntry, trace, executable, args] => do
    pure
      ⟨← program.string?, ← Json.optional? Json.string? cwd, ← Json.optional? Json.bool? stopOnEntry,
        ← Json.optional? Json.bool? trace, ← Json.optional? Json.string? executable,
        ← Json.optional? (Json.list? Json.string?) args⟩
  | _ => none

/-- The launch arguments that a text writes. -/
def LaunchArguments.ofText? (text : String) : Option LaunchArguments :=
  (Json.Outline.record? names text).bind ofJson?

/-- Lays launch arguments over the settings; `fallback` is the directory to run in where the
arguments name none. -/
def LaunchArguments.resolve (a : LaunchArguments) (config : Config) (fallback : String) :
    LaunchPlan where
  program := a.program
  workspace := a.cwd.getD fallback
  stopOnEntry := a.stopOnEntry.getD true
  trace := a.trace.getD config.trace
  executable := a.runtimeExecutable.or config.runtime.executable
  args := a.runtimeArgs.getD config.runtime.args
  portVariable := config.runtime.portVariable

theorem LaunchArguments.resolve_executable (a : LaunchArguments) (config : Config)
    (fallback : String) {path : String} (h : a.runtimeExecutable = some path) :
    (a.resolve config fallback).executable = some path := by
  simp [resolve, h]

theorem LaunchArguments.resolve_args (a : LaunchArguments) (config : Config) (fallback : String)
    {args : List String} (h : a.runtimeArgs = some args) :
    (a.resolve config fallback).args = args := by
  simp [resolve, h]

end ScriptDebugger.Adapter
