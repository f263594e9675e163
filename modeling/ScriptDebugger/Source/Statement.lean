import ScriptDebugger.Source.Location
import ScriptDebugger.Text.Blank
import ScriptDebugger.Text.Line
/-!
# Statements

A source text is cut into statements: a semicolon ends one, so does the end of the line, and a `#`
makes the rest of the line a comment. Neither has this meaning inside quotes. Quotes do not reach
beyond their line. Blank statements are dropped.
-/

namespace ScriptDebugger.Source

/-- One statement as written. -/
structure Statement where
  /-- The text, without the blanks around it. -/
  text : String
  /-- Where its first character stands. -/
  location : Location
  deriving DecidableEq, Repr

/-- Where a reader of a line stands with respect to quotes. -/
inductive Quoting
  /-- Outside quotes. -/
  | bare
  /-- Inside single quotes, which know no escapes. -/
  | single
  /-- Inside double quotes. -/
  | double
  /-- Inside double quotes, after a backslash. -/
  | doubleEscape
  deriving DecidableEq, Repr

/-- Where the reader stands after a character. -/
def Quoting.next (q : Quoting) (c : Char) : Quoting :=
  match q with
  | .bare => if c = '"' then .double else if c = '\'' then .single else .bare
  | .single => if c = '\'' then .bare else .single
  | .double => if c = '\\' then .doubleEscape else if c = '"' then .bare else .double
  | .doubleEscape => .double

namespace Statement

/-- The pieces of a line with the columns where they start. `piece` holds what was read of the
current piece, last character first, and `start` is its column. -/
def pieces (q : Quoting) (start : Nat) (piece : List Char) : List Char → List (Nat × List Char)
  | [] => [(start, piece.reverse)]
  | c :: cs =>
    if q = .bare ∧ c = '#' then [(start, piece.reverse)]
    else if q = .bare ∧ c = ';' then
      (start, piece.reverse) :: pieces .bare (start + piece.length + 1) [] cs
    else pieces (q.next c) start (c :: piece) cs

/-- The statement of a piece, unless the piece is blank. -/
def ofPiece? (line : Nat) (piece : Nat × List Char) : Option Statement :=
  match Text.trimmed piece.2 with
  | [] => none
  | text =>
    some ⟨String.ofList text, line, piece.1 + (piece.2.takeWhile Text.isBlank).length⟩

/-- The statements of one line. -/
def ofLine (line : Nat) (cs : List Char) : List Statement :=
  (pieces .bare 0 [] cs).filterMap (ofPiece? line)

/-- The statements of the lines, of which the first has the given number. -/
def ofLines (line : Nat) : List (List Char) → List Statement
  | [] => []
  | cs :: rest => ofLine line cs ++ ofLines (line + 1) rest

/-- The statements of a source text, in order. -/
def split (source : String) : List Statement := ofLines 1 (Text.lines source)

end Statement

end ScriptDebugger.Source
