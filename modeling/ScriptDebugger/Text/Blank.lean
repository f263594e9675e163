import ScriptDebugger.Text.CharSet
/-!
# Blanks

Blank characters are those with the Unicode property White_Space. Trimming, splitting into words
and cutting at the first blank are stated over lists of characters; the functions on `String`
wrap them.

## Main results

* `isBlank_of_isWhitespace` — the white space of core is blank here too.
* `trimmed_eq_self` — a text that starts and ends with a non-blank is its own trimming.
-/

namespace ScriptDebugger.Text

/-- The property White_Space. -/
def blanks : CharSet :=
  ⟨[(0x9, 0xD), (0x20, 0x20), (0x85, 0x85), (0xA0, 0xA0), (0x1680, 0x1680), (0x2000, 0x200A),
    (0x2028, 0x2029), (0x202F, 0x202F), (0x205F, 0x205F), (0x3000, 0x3000)]⟩

/-- Whether a character is blank. -/
def isBlank (c : Char) : Bool := blanks.contains c

theorem isBlank_of_isWhitespace {c : Char} (h : c.isWhitespace = true) : isBlank c = true := by
  simp only [Char.isWhitespace, Bool.or_eq_true, decide_eq_true_eq] at h
  rcases h with ((h | h) | h) | h <;> subst h <;> decide

/-- The characters without the blanks in front. -/
def dropBlanks (cs : List Char) : List Char := cs.dropWhile isBlank

/-- The characters without the blanks behind. -/
def dropBlanksRight (cs : List Char) : List Char := (cs.reverse.dropWhile isBlank).reverse

/-- The characters without the blanks at either end. -/
def trimmed (cs : List Char) : List Char := dropBlanksRight (dropBlanks cs)

theorem dropBlanks_cons_of_not {c : Char} {cs : List Char} (h : isBlank c = false) :
    dropBlanks (c :: cs) = c :: cs := by
  simp [dropBlanks, h]

theorem dropBlanksRight_append_of_not {c : Char} {cs : List Char} (h : isBlank c = false) :
    dropBlanksRight (cs ++ [c]) = cs ++ [c] := by
  simp [dropBlanksRight, h]

theorem trimmed_eq_self {c d : Char} {cs : List Char} (hc : isBlank c = false)
    (hd : isBlank d = false) (h : ∃ front, c :: cs = front ++ [d]) :
    trimmed (c :: cs) = c :: cs := by
  obtain ⟨front, hf⟩ := h
  rw [trimmed, dropBlanks_cons_of_not hc, hf, dropBlanksRight_append_of_not hd]

/-- A text without the blanks at either end. -/
def trim (s : String) : String := String.ofList (trimmed s.toList)

/-- A text without the blanks behind. -/
def trimEnd (s : String) : String := String.ofList (dropBlanksRight s.toList)

/-- The runs of non-blanks, in order; `word` is the run that is being read, last character
first. -/
def splitBlanks (word : List Char) : List Char → List (List Char)
  | [] => if word.isEmpty then [] else [word.reverse]
  | c :: cs =>
    if isBlank c then
      if word.isEmpty then splitBlanks [] cs else word.reverse :: splitBlanks [] cs
    else splitBlanks (c :: word) cs

/-- The words of a text: its maximal runs of non-blanks. -/
def words (s : String) : List String := (splitBlanks [] s.toList).map String.ofList

/-- Cuts at the first character that `p` accepts, which belongs to neither part. -/
def cutAt? (p : Char → Bool) (cs : List Char) : Option (List Char × List Char) :=
  match cs.dropWhile (fun c => !p c) with
  | [] => none
  | _ :: rest => some (cs.takeWhile (fun c => !p c), rest)

end ScriptDebugger.Text
