import ScriptDebugger.Json.Number
/-!
# Tokens of a JSON text

The reader walks over the characters once and hands out brackets, separators, words, numbers and
strings. Words and numbers end where a character comes that cannot continue them; strings end at
their quote, after which their escapes are resolved already.
-/

namespace ScriptDebugger.Json

/-- What a JSON text is made of. -/
inductive Token
  | arrayStart
  | arrayEnd
  | objectStart
  | objectEnd
  | comma
  | colon
  | null
  | bool (value : Bool)
  | number (value : Number)
  | string (value : String)
  deriving DecidableEq

namespace Token

/-- What is being read; characters read so far are held last first. -/
inductive Reading
  /-- Nothing: between two tokens. -/
  | gap
  /-- A word. -/
  | word (read : List Char)
  /-- A number. -/
  | number (read : List Char)
  /-- A string. -/
  | text (read : List Char)
  /-- A string, after a backslash. -/
  | escape (read : List Char)
  /-- A string, in a code unit with `owed` digits to come; `high` is the unit before it that waits
  for its second half. -/
  | unit (read : List Char) (high : Option Nat) (value : Nat) (owed : Nat)
  /-- A string, where the second half of a character is due: its backslash. -/
  | secondHalf (read : List Char) (high : Nat)
  /-- A string, where the second half of a character is due: the letter after its backslash. -/
  | secondHalfEscape (read : List Char) (high : Nat)

/-- The four blanks of JSON. -/
def isSpace (c : Char) : Bool := c == ' ' || c == '\t' || c == '\n' || c == '\r'

/-- The characters that numbers are written with. -/
def continuesNumber (c : Char) : Bool :=
  c.isDigit || c == '-' || c == '+' || c == '.' || c == 'e' || c == 'E'

/-- The token that a word stands for. -/
def ofWord? (read : List Char) : Option Token :=
  match read.reverse with
  | ['n', 'u', 'l', 'l'] => some .null
  | ['t', 'r', 'u', 'e'] => some (.bool true)
  | ['f', 'a', 'l', 's', 'e'] => some (.bool false)
  | _ => none

/-- The token that the characters of a number stand for. -/
def ofNumber? (read : List Char) : Option Token := (Number.read? read.reverse).map .number

/-- A character between two tokens: the token that it is, and what it opens. -/
def start? (c : Char) : Option (List Token × Reading) :=
  if isSpace c then some ([], .gap)
  else if c = '[' then some ([.arrayStart], .gap)
  else if c = ']' then some ([.arrayEnd], .gap)
  else if c = '{' then some ([.objectStart], .gap)
  else if c = '}' then some ([.objectEnd], .gap)
  else if c = ',' then some ([.comma], .gap)
  else if c = ':' then some ([.colon], .gap)
  else if c = '"' then some ([], .text [])
  else if c = '-' ∨ c.isDigit then some ([], .number [c])
  else if c.isLower then some ([], .word [c])
  else none

/-- The value of a digit in base sixteen. -/
def hexValue? (c : Char) : Option Nat :=
  if c.isDigit then some (c.toNat - '0'.toNat)
  else if 'a' ≤ c ∧ c ≤ 'f' then some (c.toNat - 'a'.toNat + 10)
  else if 'A' ≤ c ∧ c ≤ 'F' then some (c.toNat - 'A'.toNat + 10)
  else none

/-- The character after a backslash: what it stands for, or the start of a code unit. -/
def escape? (read : List Char) (c : Char) : Option Reading :=
  match c with
  | '"' => some (.text ('"' :: read))
  | '\\' => some (.text ('\\' :: read))
  | '/' => some (.text ('/' :: read))
  | 'b' => some (.text ('\x08' :: read))
  | 'f' => some (.text ('\x0c' :: read))
  | 'n' => some (.text ('\n' :: read))
  | 'r' => some (.text ('\r' :: read))
  | 't' => some (.text ('\t' :: read))
  | 'u' => some (.unit read none 0 4)
  | _ => none

/-- A complete code unit: a character of its own, or a half that needs the other one. A second half
alone, or a first half with anything else behind it, is refused. -/
def unitDone? (read : List Char) (high : Option Nat) (value : Nat) : Option Reading :=
  match high with
  | none =>
    if 0xD800 ≤ value ∧ value < 0xDC00 then some (.secondHalf read value)
    else if 0xDC00 ≤ value ∧ value < 0xE000 then none
    else some (.text (Char.ofNat value :: read))
  | some first =>
    if 0xDC00 ≤ value ∧ value < 0xE000 then
      some (.text (Char.ofNat ((first - 0xD800) * 0x400 + (value - 0xDC00) + 0x10000) :: read))
    else none

/-- One character: the tokens that it completes, and what is then being read. -/
def advance? (reading : Reading) (c : Char) : Option (List Token × Reading) :=
  match reading with
  | .gap => start? c
  | .word read =>
    if c.isLower then some ([], .word (c :: read))
    else do
      let token ← ofWord? read
      let (tokens, next) ← start? c
      some (token :: tokens, next)
  | .number read =>
    if continuesNumber c then some ([], .number (c :: read))
    else do
      let token ← ofNumber? read
      let (tokens, next) ← start? c
      some (token :: tokens, next)
  | .text read =>
    if c = '"' then some ([.string (String.ofList read.reverse)], .gap)
    else if c = '\\' then some ([], .escape read)
    else if c.toNat < 0x20 then none
    else some ([], .text (c :: read))
  | .escape read => (escape? read c).map fun next => ([], next)
  | .unit read high value owed => do
    let digit ← hexValue? c
    let value := value * 16 + digit
    if owed ≤ 1 then (unitDone? read high value).map fun next => ([], next)
    else some ([], .unit read high value (owed - 1))
  | .secondHalf read high => if c = '\\' then some ([], .secondHalfEscape read high) else none
  | .secondHalfEscape read high => if c = 'u' then some ([], .unit read (some high) 0 4) else none

/-- The tokens that the end of the text completes. -/
def finish? : Reading → Option (List Token)
  | .gap => some []
  | .word read => (ofWord? read).map ([·])
  | .number read => (ofNumber? read).map ([·])
  | .text _ | .escape _ | .unit _ _ _ _ | .secondHalf _ _ | .secondHalfEscape _ _ => none

/-- The tokens of the characters, in the midst of a reading. -/
def scanFrom? (reading : Reading) : List Char → Option (List Token)
  | [] => finish? reading
  | c :: cs => do
    let (tokens, next) ← advance? reading c
    let rest ← scanFrom? next cs
    some (tokens ++ rest)

/-- The tokens of a text. -/
def scan? (cs : List Char) : Option (List Token) := scanFrom? .gap cs

end Token

end ScriptDebugger.Json
