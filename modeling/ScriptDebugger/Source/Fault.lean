import ScriptDebugger.Text.Quoted
/-!
# Faults of a source text

Why a source text is no program. Each fault knows the line that it is reported for.
-/

namespace ScriptDebugger.Source

/-- What an assignment assigns to. -/
inductive Binding
  /-- A new binding of the current frame. -/
  | declare
  /-- A binding that is there already, or else a property of the global object. -/
  | assign
  /-- A property of the global object. -/
  | globalProperty
  deriving DecidableEq, Repr

/-- The keyword of an assignment. -/
def Binding.keyword : Binding → String
  | .declare => "let"
  | .assign => "set"
  | .globalProperty => "global"

/-- Why a source text is no program. -/
inductive Fault
  /-- The first word starts no statement. -/
  | unknownStatement (line : Nat) (keyword : String)
  /-- An assignment without an equals sign, or with nothing behind it. -/
  | malformedAssignment (line : Nat) (binding : Binding)
  /-- A word stands where a name has to. -/
  | invalidName (line : Nat) (name : String)
  /-- A text that is neither a literal nor a name. -/
  | invalidOperand (line : Nat) (text : String)
  /-- The arguments of a call end inside quotes. -/
  | unbalancedQuotes (line : Nat)
  /-- An `end` that closes no function. -/
  | unmatchedEnd (line : Nat)
  /-- A function that no `end` closes. -/
  | unclosedFunction (line : Nat) (name : String)
  /-- A second function of one name directly inside one block. -/
  | duplicateFunction (line : Nat) (name : String)
  deriving DecidableEq, Repr

namespace Fault

/-- What is wrong, without the line. -/
def explanation : Fault → String
  | unknownStatement _ keyword => "unknown statement " ++ Text.quoted keyword
  | malformedAssignment _ binding => "expected `" ++ binding.keyword ++ " NAME = VALUE`"
  | invalidName _ name => Text.quoted name ++ " is not a valid name"
  | invalidOperand _ text => Text.quoted text ++ " is neither a JSON literal nor a name"
  | unbalancedQuotes _ => "unbalanced quotes in arguments"
  | unmatchedEnd _ => "`end` without a matching `function`"
  | unclosedFunction _ name => "function " ++ Text.quoted name ++ " is never closed with `end`"
  | duplicateFunction _ name =>
    "function " ++ Text.quoted name ++ " is already defined in this scope"

/-- The line that the fault is reported for. -/
def line : Fault → Nat
  | unknownStatement n _ | malformedAssignment n _ | invalidName n _ | invalidOperand n _
  | unbalancedQuotes n | unmatchedEnd n | unclosedFunction n _ | duplicateFunction n _ => n

/-- The message for the author of the text. -/
def message (fault : Fault) : String :=
  "line " ++ toString fault.line ++ ": " ++ fault.explanation

end Fault

end ScriptDebugger.Source
