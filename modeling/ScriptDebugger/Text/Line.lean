/-!
# Lines

A line ends at a line feed, and a carriage return right before that line feed belongs to the line's
end. What follows the last line feed is a line only if it is not empty.

## Main results

* `lines_append_newline` — a line feed after a text ends its last line and adds none.
-/

namespace ScriptDebugger.Text

/-- Takes one carriage return off a line that is held last character first. -/
def dropReturn : List Char → List Char
  | '\r' :: cs => cs
  | cs => cs

/-- The lines of the characters; `line` is what was read of the current line, last character
first. -/
def splitLines (line : List Char) : List Char → List (List Char)
  | [] => if line.isEmpty then [] else [line.reverse]
  | '\n' :: cs => (dropReturn line).reverse :: splitLines [] cs
  | c :: cs => splitLines (c :: line) cs

/-- The lines of a text. -/
def lines (s : String) : List (List Char) := splitLines [] s.toList

theorem splitLines_cons {c : Char} (line cs : List Char) (h : c ≠ '\n') :
    splitLines line (c :: cs) = splitLines (c :: line) cs := by
  rw [splitLines]
  exact h

theorem splitLines_append_newline (line cs : List Char) (h : ∀ c ∈ cs, c ≠ '\n') :
    splitLines line (cs ++ ['\n']) = [(dropReturn (cs.reverse ++ line)).reverse] := by
  induction cs generalizing line with
  | nil => simp [splitLines]
  | cons c cs ih =>
    rw [List.cons_append, splitLines_cons _ _ (h c (by simp)),
      ih _ fun d hd => h d (List.mem_cons_of_mem _ hd)]
    simp

theorem lines_append_newline (cs : List Char) (h : ∀ c ∈ cs, c ≠ '\n') :
    splitLines [] (cs ++ ['\n']) = [(dropReturn cs.reverse).reverse] := by
  simpa using splitLines_append_newline [] cs h

end ScriptDebugger.Text
