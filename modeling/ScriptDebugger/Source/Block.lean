import ScriptDebugger.Source.Command
/-!
# Blocks

A program as a tree: the module holds its instructions and the functions declared directly inside
it, and so does each function. Every instruction knows the statement that it stems from by that
statement's location.
-/

namespace ScriptDebugger.Source

/-- What one instruction does. -/
inductive Op
  /-- Evaluates an operand into the accumulator of the frame. -/
  | load (value : Operand)
  /-- Moves the accumulator into a binding. -/
  | store (binding : Binding) (name : String)
  /-- Calls a function and waits for it. -/
  | call (name : String) (args : List Operand)
  /-- Queues a call for the time after the module's end. -/
  | defer (name : String) (args : List Operand)
  /-- Writes a value to the output. -/
  | print (value : Operand)
  /-- Ends the function. -/
  | ret

/-- An operation and the location of its statement. -/
structure Instruction where
  /-- What is done. -/
  op : Op
  /-- The location of the statement. -/
  location : Location

/-- A module or the body of a function. -/
structure Block where
  /-- The function's name; the module has none. -/
  name : Option String
  /-- The function's parameters. -/
  params : List String
  /-- Where it starts. -/
  start : Location
  /-- How many lines it takes. -/
  lineCount : Nat
  /-- The instructions; an offset is a place in this list. -/
  code : List Instruction
  /-- The functions declared directly inside. -/
  functions : List Block

namespace Block

/-- The module of a text, before any statement. -/
def emptyModule (lineCount : Nat) : Block := ⟨none, [], ⟨1, 0⟩, lineCount, [], []⟩

/-- A function that has just been opened. -/
def emptyFunction (name : String) (params : List String) (start : Location) : Block :=
  ⟨some name, params, start, 1, [], []⟩

/-- The block with further instructions, all of one statement. -/
def emit (b : Block) (ops : List Op) (location : Location) : Block :=
  { b with code := b.code ++ ops.map (⟨·, location⟩) }

/-- Adds a name to names unless it is among them. -/
def addName (names : List String) (name : String) : List String :=
  if names.contains name then names else names ++ [name]

/-- The names that the instructions declare, added to the ones given. -/
def declareAll (names : List String) : List Instruction → List String
  | [] => names
  | ⟨.store .declare name, _⟩ :: rest => declareAll (addName names name) rest
  | _ :: rest => declareAll names rest

/-- The parameters, and then every declared name in the order of its first declaration. -/
def declaredNames (b : Block) : List String := declareAll b.params b.code

end Block

end ScriptDebugger.Source
