/-!
# Shell words

The arguments of a call are split as a POSIX shell splits a command line: words end at a space, a
tab or a line feed, single quotes keep everything, double quotes keep everything but a few escapes,
and a `#` at the start of a word begins a comment.
-/

namespace ScriptDebugger.Text.ShellWord

/-- Where the reader stands. -/
inductive Mode
  /-- Between two words. -/
  | gap
  /-- Inside a comment. -/
  | comment
  /-- Inside a word, outside quotes. -/
  | bare
  /-- After a backslash outside quotes. -/
  | bareEscape
  /-- Inside single quotes. -/
  | single
  /-- Inside double quotes. -/
  | double
  /-- After a backslash inside double quotes. -/
  | doubleEscape
  deriving DecidableEq, Repr

/-- The characters that end a word. -/
def isSeparator (c : Char) : Bool := c == ' ' || c == '\t' || c == '\n'

/-- The characters whose backslash disappears inside double quotes. -/
def isDoubleEscapable (c : Char) : Bool := c == '$' || c == '\x60' || c == '"' || c == '\\'

/-- The mode after one character, and the word after it (last character first); a character
outside quotes that ends a word is the caller's business. -/
def advance (mode : Mode) (word : List Char) (c : Char) : Mode × List Char :=
  match mode with
  | .gap =>
    if isSeparator c then (.gap, word)
    else if c = '#' then (.comment, word)
    else if c = '"' then (.double, word)
    else if c = '\'' then (.single, word)
    else if c = '\\' then (.bareEscape, word)
    else (.bare, c :: word)
  | .comment => if c = '\n' then (.gap, word) else (.comment, word)
  | .bare =>
    if isSeparator c then (.gap, word)
    else if c = '"' then (.double, word)
    else if c = '\'' then (.single, word)
    else if c = '\\' then (.bareEscape, word)
    else (.bare, c :: word)
  | .bareEscape => if c = '\n' then (.bare, word) else (.bare, c :: word)
  | .single => if c = '\'' then (.bare, word) else (.single, c :: word)
  | .double =>
    if c = '"' then (.bare, word)
    else if c = '\\' then (.doubleEscape, word)
    else (.double, c :: word)
  | .doubleEscape =>
    if isDoubleEscapable c then (.double, c :: word)
    else if c = '\n' then (.double, word)
    else (.double, c :: '\\' :: word)

/-- The words of the characters, or `none` when they end inside quotes or after a backslash. -/
def splitFrom (mode : Mode) (word : List Char) : List Char → Option (List (List Char))
  | [] =>
    match mode with
    | .gap | .comment => some []
    | .bare => some [word.reverse]
    | .bareEscape | .single | .double | .doubleEscape => none
  | c :: cs =>
    match mode, advance mode word c with
    | .bare, (.gap, word') => (splitFrom .gap [] cs).map (word'.reverse :: ·)
    | _, (mode', word') => splitFrom mode' word' cs

/-- The words of a command line. -/
def split? (s : String) : Option (List String) :=
  (splitFrom .gap [] s.toList).map (List.map String.ofList)

example : split? "greet name '\x7b\"a\": 1\x7d' 3" = some ["greet", "name", "\x7b\"a\": 1\x7d", "3"] := by
  cbv

end ScriptDebugger.Text.ShellWord
