import ScriptDebugger.Text.Printable
/-!
# Quoted texts

Messages show a name or a piece of source in double quotes, with everything that the eye could
mistake written as an escape.
-/

namespace ScriptDebugger.Text

/-- The digits of a number in base sixteen, lower case, without padding. -/
def hexDigits (n : Nat) : List Char := Nat.toDigits 16 n

/-- One character inside the quotes: the quote and the backslash get a backslash, tab, newline,
carriage return and NUL their short escapes, anything else that is not printable its code point. -/
def quotedChar (c : Char) : List Char :=
  if c = '"' then ['\\', '"']
  else if c = '\\' then ['\\', '\\']
  else if c = '\n' then ['\\', 'n']
  else if c = '\r' then ['\\', 'r']
  else if c = '\t' then ['\\', 't']
  else if c = '\x00' then ['\\', '0']
  else if isPrintable c then [c]
  else ['\\', 'u', '{'] ++ hexDigits c.toNat ++ ['}']

/-- A text in double quotes, with escapes. -/
def quoted (s : String) : String :=
  String.ofList ('"' :: s.toList.flatMap quotedChar ++ ['"'])

end ScriptDebugger.Text
