import ScriptDebugger.Text.Utf8
import ScriptDebugger.Toml.Reader
/-!
# Settings of the adapter

The adapter may be given a settings file. Every setting may be missing and then has its default; a
setting of another name, or a value of another type, refuses the whole file.

## Main results

* `ofText_empty` — an empty file means the defaults.
-/

namespace ScriptDebugger.Adapter

open Toml (Entries)

/-- How the adapter starts a target. -/
structure RuntimeConfig where
  /-- The target's executable; none stands for the adapter's own. -/
  executable : Option String := none
  /-- The arguments in front of the program's path. -/
  args : List String := ["run"]
  /-- The environment variable that tells the target where to ask for a session. -/
  portVariable : String := "DEBUGGER_PORT"
  deriving DecidableEq, Repr

/-- The settings of the adapter. -/
structure Config where
  /-- The port at which targets ask for a session; zero stands for any free one. -/
  rendezvousPort : Nat := 0
  /-- Whether agents are asked for a log. -/
  trace : Bool := false
  /-- What the adapter logs. -/
  logFilter : Option String := none
  /-- How the adapter starts a target. -/
  runtime : RuntimeConfig := {}
  deriving DecidableEq, Repr

/-- Why settings cannot be used. -/
inductive ConfigError
  /-- The file cannot be read as a text. -/
  | unreadable
  /-- The text is no settings document, or holds a setting that is not known. -/
  | malformed
  deriving DecidableEq, Repr

/-- The text that a value is. -/
def string? : Toml.Value → Option String
  | .string text => some text
  | _ => none

/-- The truth value that a value is. -/
def bool? : Toml.Value → Option Bool
  | .bool b => some b
  | _ => none

/-- The port that a value is. -/
def port? : Toml.Value → Option Nat
  | .integer n => if 0 ≤ n ∧ n < UInt16.size then some n.toNat else none
  | _ => none

/-- The texts that a value lists. -/
def strings? : Toml.Value → Option (List String)
  | .array items => items.mapM string?
  | _ => none

/-- A setting that may be missing. -/
def setting? {α : Type} (read : Toml.Value → Option α) (default : α) :
    Option Toml.Value → Option α
  | none => some default
  | some value => read value

/-- The runtime settings that a value is: a table, or a list of the settings in their order. -/
def RuntimeConfig.ofValue? : Toml.Value → Option RuntimeConfig
  | .table _ entries =>
    if entries.all fun e => ["executable", "args", "port_env"].contains e.1 then do
      let executable ← setting? (fun v => (string? v).map some) none
        (Toml.lookup "executable" entries)
      let args ← setting? strings? ["run"] (Toml.lookup "args" entries)
      let portVariable ← setting? string? "DEBUGGER_PORT" (Toml.lookup "port_env" entries)
      some { executable, args, portVariable }
    else none
  | .array items => do
    let executable ← setting? (fun v => (string? v).map some) none items[0]?
    let args ← setting? strings? ["run"] items[1]?
    let portVariable ← setting? string? "DEBUGGER_PORT" items[2]?
    some { executable, args, portVariable }
  | _ => none

/-- The settings that a document holds. -/
def Config.ofEntries? (entries : Entries) : Option Config :=
  if entries.all fun e => ["rendezvous_port", "trace", "log_filter", "runtime"].contains e.1 then do
    let rendezvousPort ← setting? port? 0 (Toml.lookup "rendezvous_port" entries)
    let trace ← setting? bool? false (Toml.lookup "trace" entries)
    let logFilter ← setting? (fun v => (string? v).map some) none (Toml.lookup "log_filter" entries)
    let runtime ← setting? RuntimeConfig.ofValue? {} (Toml.lookup "runtime" entries)
    some { rendezvousPort, trace, logFilter, runtime }
  else none

/-- The settings that a text holds. -/
def Config.ofText (text : String) : Except ConfigError Config :=
  match (Toml.parse? text).bind Config.ofEntries? with
  | some config => .ok config
  | none => .error .malformed

theorem Config.ofText_empty : Config.ofText "" = .ok {} := rfl

/-- The settings of a file, which is `none` where there is no such file. -/
def Config.ofFile (contents : Option (List UInt8)) : Except ConfigError Config :=
  match contents.bind Text.Utf8.decode? with
  | some text => Config.ofText text
  | none => .error .unreadable

end ScriptDebugger.Adapter
