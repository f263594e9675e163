import ScriptDebugger.Console
/-!
# The program

Reads files and standard input, lets the commands do their work, and writes what they say. A target
that the adapter launches runs inside the adapter's own process.
-/

namespace ScriptDebugger.Main

open Adapter

/-- How many small steps a program may take between two stops. -/
def fuel : Nat := UInt64.size

/-- The bytes of a file, if it can be read. -/
def readFile? (path : String) : IO (Option (List UInt8)) := do
  try
    return some (← IO.FS.readBinFile path).toList
  catch _ =>
    return none

/-- The text of a file, if it can be read. -/
def readText? (path : String) : IO (Option String) := do
  return (← readFile? path).bind Text.Utf8.decode?

/-- Writes bytes to the standard output. -/
def write (bytes : List UInt8) : IO Unit := do
  let stdout ← IO.getStdout
  stdout.write ⟨bytes.toArray⟩
  stdout.flush

/-- Runs a program on its own. -/
def runProgram (program : String) : IO Nat := do
  let text ← readText? program
  match Console.runProgram fuel (fun path => if path = program then text else none) program with
  | none => return Console.failure
  | some outcome =>
    for line in outcome.printed do
      write (Text.Utf8.encode (line ++ "\n"))
    return outcome.status

/-- A host that holds the program of a plan. -/
def hostOf (plan : LaunchPlan) : IO Host := do
  let file := Path.qualify plan.workspace plan.program
  let text ← readText? file
  return {
    text? := fun directory path => if Path.qualify directory path = file then text else none
    refusal? := fun plan => if plan.executable.isNone then none else some PathError.missing.message }

/-- The host for a request, which matters only for a launch. -/
def hostFor (server : Server (Debug.Agent Machine.State)) (r : Request) : IO Host :=
  match server.planOf? r with
  | some plan => hostOf plan
  | none => return ⟨fun _ _ => none, fun _ => some PathError.missing.message⟩

/-- Writes contents under the numbers that follow `sent`, and gives the last of them. -/
def send (sent : Nat) (contents : List Content) : IO Nat := do
  for message in Message.number (sent + 1) contents do
    write message.encode
  return sent + contents.length

/-- Ends the session. -/
def close (server : Server (Debug.Agent Machine.State)) (sent : Nat) : IO Unit := do
  match server.closeSession fuel with
  | none => return
  | some (_, contents) => discard (send sent contents)

/-- Serves requests as they come. -/
partial def serve (server : Server (Debug.Agent Machine.State)) (input : Input) (sent : Nat) :
    IO Nat := do
  match input.next with
  | (input, .incomplete) =>
    let bytes ← (← IO.getStdin).read 4096
    if bytes.isEmpty then
      close server sent
      return if input.atEnd.isNone then Console.success else Console.failure
    else serve server (input.extend bytes.toList) sent
  | (_, .failed _) =>
    close server sent
    return Console.failure
  | (input, .body bytes) =>
    match (Message.decode? bytes).bind Message.request? with
    | none => serve server input sent
    | some r =>
      match server.handle fuel (Console.setting (← hostFor server r)) r with
      | none => return Console.failure
      | some (server, contents, .more) => serve server input (← send sent contents)
      | some (server, contents, .stop) =>
        close server (← send sent contents)
        return Console.success

/-- Serves the adapter with the settings of a file, or with the defaults. -/
def serveAdapter (path : Option String) : IO Nat := do
  let config ← match path with
    | none => pure (.ok {})
    | some path => do pure (Config.ofFile (← readFile? path))
  match config with
  | .error _ => return Console.failure
  | .ok config => serve { config, fallback := (← IO.currentDir).toString } {} 0

end ScriptDebugger.Main

open ScriptDebugger

/-- Runs the command that the arguments name. -/
def main (args : List String) : IO UInt32 := do
  match CommandLine.parse (← IO.getEnv CommandLine.portVariable) args with
  | .error e =>
    IO.eprintln s!"error: {e.message}"
    return Console.misuse.toUInt32
  | .ok (.run program _ _) => return (← Main.runProgram program).toUInt32
  | .ok (.adapter config _ _) => return (← Main.serveAdapter config).toUInt32
