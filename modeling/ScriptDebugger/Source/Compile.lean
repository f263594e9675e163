import ScriptDebugger.Source.Block
/-!
# Compiling

The statements of a text are taken one after another, each into the innermost block that is open.
A `function` statement opens a block, an `end` closes it and hands it to the block around it. The
first fault ends the work.

## Main results

* `addAll_append` — taking statements in two runs is taking them in one.
-/

namespace ScriptDebugger.Source

/-- The open blocks. -/
structure Nest where
  /-- The innermost open block. -/
  inner : Block
  /-- The blocks around it, from the inside out; the last one is the module. -/
  outer : List Block

namespace Nest

/-- Adds instructions to the innermost block. -/
def emit (nest : Nest) (ops : List Op) (location : Location) : Nest :=
  { nest with inner := nest.inner.emit ops location }

/-- Closes the innermost function at the location of its `end`. A block has at most one function of
a name. -/
def close (nest : Nest) (location : Location) : Except Fault Nest :=
  match nest.outer with
  | [] => .error (.unmatchedEnd location.line)
  | parent :: rest =>
    let function := nest.inner.emit [.ret] location
    let function := { function with lineCount := location.line - function.start.line + 1 }
    if parent.functions.any (·.name == function.name) then
      .error (.duplicateFunction function.start.line (function.name.getD ""))
    else .ok ⟨{ parent with functions := parent.functions ++ [function] }, rest⟩

/-- Carries out one command. -/
def apply (nest : Nest) (location : Location) : Command → Except Fault Nest
  | .function name params =>
    .ok ⟨Block.emptyFunction name params location, nest.inner :: nest.outer⟩
  | .finish => nest.close location
  | .assign binding name value => .ok (nest.emit [.load value, .store binding name] location)
  | .call name args => .ok (nest.emit [.call name args] location)
  | .defer name args => .ok (nest.emit [.defer name args] location)
  | .print value => .ok (nest.emit [.print value] location)

/-- Takes one statement. -/
def add (nest : Nest) (statement : Statement) : Except Fault Nest :=
  (Command.ofStatement statement).bind (nest.apply statement.location)

/-- Takes statements in order. -/
def addAll (nest : Nest) : List Statement → Except Fault Nest
  | [] => .ok nest
  | statement :: rest => (nest.add statement).bind (addAll · rest)

theorem addAll_append (nest : Nest) (front back : List Statement) :
    nest.addAll (front ++ back) = (nest.addAll front).bind (addAll · back) := by
  induction front generalizing nest with
  | nil => rfl
  | cons statement rest ih =>
    simp only [List.cons_append, addAll]
    cases nest.add statement with
    | error fault => rfl
    | ok next => exact ih next

/-- The module, if no function is open any more. -/
def finish (nest : Nest) : Except Fault Block :=
  match nest.outer with
  | [] => .ok nest.inner
  | _ :: _ => .error (.unclosedFunction nest.inner.start.line (nest.inner.name.getD ""))

end Nest

/-- The program that a source text is. -/
def compile (source : String) : Except Fault Block :=
  (Nest.addAll ⟨Block.emptyModule (Text.lines source).length, []⟩ (Statement.split source)).bind
    Nest.finish

end ScriptDebugger.Source
