import ScriptDebugger.Text.Letter
/-!
# Names

Variables, parameters and functions are called by names: a letter, an underscore or a dollar sign,
and then any number of these and of numerals.
-/

namespace ScriptDebugger.Source

/-- A character that a name may start with. -/
def startsName (c : Char) : Bool := Text.isLetter c || c == '_' || c == '$'

/-- A character that a name may go on with. -/
def continuesName (c : Char) : Bool := Text.isLetterOrNumeral c || c == '_' || c == '$'

/-- Whether the characters are a name. -/
def isNameChars : List Char → Bool
  | [] => false
  | c :: cs => startsName c && cs.all continuesName

/-- Whether a text is a name. -/
def isName (s : String) : Bool := isNameChars s.toList

end ScriptDebugger.Source
