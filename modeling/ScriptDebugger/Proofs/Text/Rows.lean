import ScriptDebugger.Text.Line
/-!
# A text as its lines

The lines of a text, each with what ends it, are the whole text: no character is lost, and none is
in two lines. A line holds no line feed; a carriage return right before the line feed belongs to the
end of the line, and any other one to the line itself.

## Main results

* `rows_lines` — a text is its lines with their ends.
-/

namespace ScriptDebugger.Text

/-- Whether a line may be ended so. -/
inductive EndsRow (row : List Char) : List Char → Prop
  | return_feed : EndsRow row ['\r', '\n']
  | feed (hreturn : ∀ front, row ≠ front ++ ['\r']) : EndsRow row ['\n']

/-- The lines that characters are. Behind the last line feed there is a line only if there is a
character. -/
inductive Rows : List (List Char) → List Char → Prop
  | nil : Rows [] []
  | last {row : List Char} (hne : row ≠ []) (hrow : '\n' ∉ row) : Rows [row] row
  | cons {row ending rest : List Char} {rows : List (List Char)} (hrow : '\n' ∉ row)
    (hending : EndsRow row ending) (hrest : Rows rows rest) :
    Rows (row :: rows) (row ++ (ending ++ rest))

theorem rows_splitLines (line cs : List Char) (hline : '\n' ∉ line) :
    Rows (splitLines line cs) (line.reverse ++ cs) := by
  induction cs generalizing line with
  | nil =>
      by_cases hempty : line = []
      · subst hempty
        exact .nil
      · have hsplit : splitLines line [] = [line.reverse] := by
          simp [splitLines, hempty]
        rw [hsplit, List.append_nil]
        exact .last (by simpa using hempty) (by simpa using hline)
  | cons c cs ih =>
      by_cases hfeed : c = '\n'
      · subst hfeed
        have hrest : Rows (splitLines [] cs) cs := ih [] List.not_mem_nil
        rw [splitLines]
        by_cases hreturn : ∃ front, line = '\r' :: front
        · obtain ⟨front, rfl⟩ := hreturn
          have hfront : '\n' ∉ front := fun hmem => hline (List.mem_cons_of_mem _ hmem)
          have hwhole : ('\r' :: front).reverse ++ '\n' :: cs =
              front.reverse ++ (['\r', '\n'] ++ cs) := by simp
          rw [hwhole]
          exact .cons (by simpa [dropReturn] using hfront) .return_feed hrest
        · have hkeep : dropReturn line = line := by
            cases line with
            | nil => rfl
            | cons d front =>
                have hd : d ≠ '\r' := fun heq => hreturn ⟨front, by rw [heq]⟩
                simp [dropReturn, hd]
          rw [hkeep]
          have hfeed : EndsRow line.reverse ['\n'] := by
            refine .feed ?_
            intro front hlast
            refine hreturn ⟨front.reverse, ?_⟩
            rw [← List.reverse_reverse line, hlast, List.reverse_append, List.reverse_singleton]
            rfl
          exact .cons (by simpa using hline) hfeed hrest
      · rw [splitLines_cons line cs hfeed]
        have hnext : '\n' ∉ c :: line := by
          intro hmem
          rcases List.mem_cons.1 hmem with heq | hmem
          · exact hfeed heq.symm
          · exact hline hmem
        have hwhole : line.reverse ++ c :: cs = (c :: line).reverse ++ cs := by simp
        rw [hwhole]
        exact ih (c :: line) hnext

/-- A text is its lines with their ends. -/
theorem rows_lines (s : String) : Rows (lines s) s.toList :=
  rows_splitLines [] s.toList List.not_mem_nil

end ScriptDebugger.Text
