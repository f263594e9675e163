import ScriptDebugger.Wire.Frame
/-!
# The command line

There are two commands: `run` runs a program, under a debugger if one waits at a port, and `adapter`
serves the Debug Adapter Protocol. Options may stand anywhere behind the command, with their value
behind them or after an equals sign; behind two hyphens nothing is an option any more. The port of
the debugger may also come from the environment, where an option does not name it.

## Main results

* `parse_nil` — a command has to be named.
-/

namespace ScriptDebugger.CommandLine

/-- The environment variable with the port of a debugger. -/
def portVariable : String := "DEBUGGER_PORT"

/-- Why a command line is refused. -/
inductive UsageError
  /-- There is no such command, or none is named. -/
  | unknownCommand
  /-- An argument stands where none may stand. -/
  | unexpectedArgument (argument : String)
  /-- An option has no value. -/
  | missingValue (option : String)
  /-- A value is no port. -/
  | invalidPort (value : String)
  /-- An option stands twice. -/
  | repeated (option : String)
  /-- No program is named. -/
  | missingProgram
  deriving DecidableEq, Repr

/-- The message for a refused command line. -/
def UsageError.message : UsageError → String
  | .unknownCommand => "expected a command: run or adapter"
  | .unexpectedArgument argument => s!"unexpected argument {argument}"
  | .missingValue option => s!"a value is required for {option}"
  | .invalidPort value => s!"{value} is not a port"
  | .repeated option => s!"{option} cannot be used multiple times"
  | .missingProgram => "no program is named"

/-- A command with its options. -/
inductive Command
  /-- Runs a program. -/
  | run (program : String) (port : Option Nat) (verbose : Bool)
  /-- Serves the Debug Adapter Protocol. -/
  | adapter (config : Option String) (port : Option Nat) (verbose : Bool)
  deriving DecidableEq, Repr

/-- A part of the arguments behind a command. -/
inductive Part
  /-- The option for more log. -/
  | verbose
  /-- An option with a value. -/
  | value (option value : String)
  /-- Anything else. -/
  | plain (argument : String)
  deriving DecidableEq, Repr

/-- Cuts an argument at its first equals sign. -/
def cutEquals (argument : String) : String × Option String :=
  let cs := argument.toList
  match cs.dropWhile (· != '=') with
  | [] => (argument, none)
  | _ :: value => (String.ofList (cs.takeWhile (· != '=')), some (String.ofList value))

/-- Whether an argument is written as an option. -/
def isOption (argument : String) : Bool :=
  match argument.toList with
  | '-' :: _ :: _ => true
  | _ => false

/-- The parts of the arguments behind a command; `valued` are the options that have a value. -/
def parts (valued : List String) : List String → Except UsageError (List Part)
  | [] => .ok []
  | argument :: rest =>
    if argument = "--" then .ok (rest.map .plain)
    else if argument = "-v" ∨ argument = "--verbose" then (parts valued rest).map (.verbose :: ·)
    else if !isOption argument then (parts valued rest).map (.plain argument :: ·)
    else
      match cutEquals argument with
      | (option, some value) =>
        if valued.contains option then (parts valued rest).map (.value option value :: ·)
        else .error (.unexpectedArgument argument)
      | (option, none) =>
        if !valued.contains option then .error (.unexpectedArgument argument)
        else
          match rest with
          | [] => .error (.missingValue option)
          | value :: rest =>
            if isOption value then .error (.missingValue option)
            else (parts valued rest).map (.value option value :: ·)

/-- The value of an option that stands at most once. -/
def valueOf (option : String) (ps : List Part) : Except UsageError (Option String) :=
  let values := ps.filterMap fun
    | .value o value => if o = option then some value else none
    | _ => none
  match values with
  | [] => .ok none
  | [value] => .ok (some value)
  | _ :: _ :: _ => .error (.repeated option)

/-- Whether more log is wanted. -/
def verboseOf (ps : List Part) : Except UsageError Bool :=
  match ps.filter fun p => p == .verbose with
  | [] => .ok false
  | [_] => .ok true
  | _ :: _ :: _ => .error (.repeated "--verbose")

/-- The arguments that are no options. -/
def plainOf (ps : List Part) : List String :=
  ps.filterMap fun
    | .plain argument => some argument
    | _ => none

/-- The port that a text writes, which may have a sign in front. -/
def port (value : String) : Except UsageError Nat :=
  match value.toList with
  | '-' :: cs =>
    if cs.head? ≠ some '+' ∧ Wire.readLength? cs = some 0 then .ok 0 else .error (.invalidPort value)
  | cs =>
    match Wire.readLength? cs with
    | some n => if n < UInt16.size then .ok n else .error (.invalidPort value)
    | none => .error (.invalidPort value)

/-- The port that an option or else the environment names. -/
def portOf (value environment : Option String) : Except UsageError (Option Nat) :=
  match value.or environment with
  | none => .ok none
  | some value => (port value).map some

/-- The command that arguments name; `environment` is the port that the environment names. -/
def parse (environment : Option String) : List String → Except UsageError Command
  | "run" :: rest => do
    let ps ← parts ["--debugger-port"] rest
    let verbose ← verboseOf ps
    let port ← portOf (← valueOf "--debugger-port" ps) environment
    match plainOf ps with
    | [] => .error .missingProgram
    | [program] => .ok (.run program port verbose)
    | _ :: argument :: _ => .error (.unexpectedArgument argument)
  | "adapter" :: rest => do
    let ps ← parts ["--config", "--rendezvous-port"] rest
    let verbose ← verboseOf ps
    let port ← portOf (← valueOf "--rendezvous-port" ps) none
    let config ← valueOf "--config" ps
    if config = some "" then throw (.missingValue "--config")
    match plainOf ps with
    | [] => .ok (.adapter config port verbose)
    | argument :: _ => .error (.unexpectedArgument argument)
  | _ => .error .unknownCommand

theorem parse_nil (environment : Option String) : parse environment [] = .error .unknownCommand :=
  rfl

end ScriptDebugger.CommandLine
