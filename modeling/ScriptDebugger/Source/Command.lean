import ScriptDebugger.Json.Parser
import ScriptDebugger.Source.Fault
import ScriptDebugger.Source.Name
import ScriptDebugger.Source.Statement
import ScriptDebugger.Text.ShellWord
/-!
# Commands

What a statement says. Its first word selects the form; operands are JSON literals or names, and
the arguments of a call are split as a shell does it.
-/

namespace ScriptDebugger.Source

/-- A value as it is written in a program. -/
inductive Operand
  /-- A JSON document in canonical form. -/
  | literal (value : Json)
  /-- A name that is looked up when the program runs. -/
  | name (name : String)

/-- What a statement says. -/
inductive Command
  | assign (binding : Binding) (name : String) (value : Operand)
  | call (name : String) (args : List Operand)
  | defer (name : String) (args : List Operand)
  | print (value : Operand)
  | function (name : String) (params : List String)
  | finish

/-- Reads an operand: a literal if the text is one, else a name. -/
def Operand.parse (line : Nat) (text : String) : Except Fault Operand :=
  let text := Text.trim text
  match Json.read? text with
  | some value => .ok (.literal value)
  | none => if isName text then .ok (.name text) else .error (.invalidOperand line text)

/-- A text that has to be a name. -/
def checkName (line : Nat) (name : String) : Except Fault String :=
  if isName name then .ok name else .error (.invalidName line name)

/-- Reads each text in turn; the first fault is the answer. -/
def readAll {α : Type} (read : String → Except Fault α) : List String → Except Fault (List α)
  | [] => .ok []
  | s :: rest => do
    let a ← read s
    let more ← readAll read rest
    pure (a :: more)

namespace Command

/-- The parts of an assignment behind its keyword. -/
def parseAssignment (line : Nat) (binding : Binding) (rest : List Char) : Except Fault Command :=
  match Text.cutAt? (· == '=') rest with
  | none => .error (.malformedAssignment line binding)
  | some (name, value) =>
    if Text.trimmed value = [] then .error (.malformedAssignment line binding)
    else do
      let name ← checkName line (String.ofList (Text.trimmed name))
      let value ← Operand.parse line (String.ofList value)
      pure (.assign binding name value)

/-- The name and the arguments of a call. -/
def parseCall (line : Nat) (rest : List Char) : Except Fault (String × List Operand) :=
  match Text.ShellWord.split? (String.ofList rest) with
  | none => .error (.unbalancedQuotes line)
  | some words => do
    let name ← checkName line (words.head?.getD "")
    let args ← readAll (Operand.parse line) words.tail
    pure (name, args)

/-- The name and the parameters of a function. -/
def parseFunction (line : Nat) (rest : List Char) : Except Fault Command := do
  let words := Text.words (String.ofList rest)
  let name ← checkName line (words.head?.getD "")
  let params ← readAll (checkName line) words.tail
  pure (.function name params)

/-- The first word of a statement and what follows it. -/
def cutKeyword (text : String) : String × List Char :=
  match Text.cutAt? Text.isBlank text.toList with
  | some (keyword, rest) => (String.ofList keyword, Text.trimmed rest)
  | none => (text, [])

/-- What a statement says. -/
def ofStatement (statement : Statement) : Except Fault Command :=
  let line := statement.location.line
  let (keyword, rest) := cutKeyword statement.text
  if keyword = "let" then parseAssignment line .declare rest
  else if keyword = "set" then parseAssignment line .assign rest
  else if keyword = "global" then parseAssignment line .globalProperty rest
  else if keyword = "call" then do
    let (name, args) ← parseCall line rest
    pure (.call name args)
  else if keyword = "defer" then do
    let (name, args) ← parseCall line rest
    pure (.defer name args)
  else if keyword = "print" then do
    let value ← Operand.parse line (String.ofList rest)
    pure (.print value)
  else if keyword = "function" then parseFunction line rest
  else if keyword = "end" ∧ rest = [] then pure .finish
  else .error (.unknownStatement line keyword)

end Command

end ScriptDebugger.Source
