import Mathlib.Data.List.Induction
import Mathlib.Data.List.TakeWhile
import Mathlib.Tactic.IntervalCases
import ScriptDebugger.Text.Blank
/-!
# Blanks at the ends of a text

What stands before the first character that is no blank, and behind the last one, is dropped when a
text is trimmed; what is left begins and ends with a character that is no blank. Digits are no
blanks, so a text that ends in a number keeps its end.

## Main results

* `dropBlanksRight_append_cons`, `dropBlanksRight_append_digits` — what is kept in front of the
  blanks at the end.
* `exists_trimmed` — a text is its trimming with blanks on either side.
* `isBlank_head_trimmed`, `isBlank_last_trimmed` — a trimmed text has no blank at its ends.
* `trimmed_of_blanks` — blanks around a text without any are trimmed off it.
-/

namespace ScriptDebugger.Text

theorem dropBlanksRight_append_blank {c : Char} (cs : List Char) (h : isBlank c = true) :
    dropBlanksRight (cs ++ [c]) = dropBlanksRight cs := by
  simp [dropBlanksRight, h]

theorem isBlank_of_isDigit {c : Char} (h : c.isDigit = true) : isBlank c = false := by
  simp only [Char.isDigit, Bool.and_eq_true, decide_eq_true_eq] at h
  obtain ⟨hlow, hhigh⟩ := h
  have hlow : 48 ≤ c.toNat := hlow
  have hhigh : c.toNat ≤ 57 := hhigh
  have hno : ∀ n, 48 ≤ n → n ≤ 57 → CharSet.search n blanks.ranges = false := by
    intro n hn hn'
    interval_cases n <;> rfl
  exact hno c.toNat hlow hhigh

/-- Nothing is dropped behind characters that are no blanks. -/
theorem dropBlanksRight_append_not_blank (front : List Char) {cs : List Char} (hne : cs ≠ [])
    (h : ∀ c ∈ cs, isBlank c = false) : dropBlanksRight (front ++ cs) = front ++ cs := by
  have hlast := h _ (List.getLast_mem hne)
  rw [← List.dropLast_concat_getLast hne, ← List.append_assoc]
  exact dropBlanksRight_append_of_not hlast

/-- Nothing is dropped behind digits. -/
theorem dropBlanksRight_append_digits (front : List Char) {digits : List Char} (hne : digits ≠ [])
    (hdigits : ∀ c ∈ digits, c.isDigit = true) :
    dropBlanksRight (front ++ digits) = front ++ digits :=
  dropBlanksRight_append_not_blank front hne fun c hc => isBlank_of_isDigit (hdigits c hc)

/-- Only blanks are dropped. -/
theorem exists_dropBlanksRight (cs : List Char) :
    ∃ behind, cs = dropBlanksRight cs ++ behind ∧ ∀ c ∈ behind, isBlank c = true := by
  refine ⟨(cs.reverse.takeWhile isBlank).reverse, ?_, fun c hc => ?_⟩
  · rw [dropBlanksRight, ← List.reverse_append, List.takeWhile_append_dropWhile,
      List.reverse_reverse]
  · exact List.all_eq_true.1 List.all_takeWhile c (List.mem_reverse.1 hc)

/-- A text is its trimming with blanks on either side. -/
theorem exists_trimmed (cs : List Char) :
    ∃ behind, cs = cs.takeWhile isBlank ++ (trimmed cs ++ behind) ∧
      ∀ c ∈ behind, isBlank c = true := by
  obtain ⟨behind, hright, hbehind⟩ := exists_dropBlanksRight (dropBlanks cs)
  refine ⟨behind, ?_, hbehind⟩
  rw [trimmed, ← hright, dropBlanks, List.takeWhile_append_dropWhile]

theorem isBlank_head_trimmed {cs rest : List Char} {c : Char} (h : trimmed cs = c :: rest) :
    isBlank c = false := by
  obtain ⟨behind, hsplit, -⟩ := exists_trimmed cs
  have hdrop : cs.dropWhile isBlank = c :: (rest ++ behind) := by
    have hwhole := (List.takeWhile_append_dropWhile (p := isBlank) (l := cs)).trans hsplit
    rw [h] at hwhole
    exact List.append_cancel_left hwhole
  have hhead := List.head?_dropWhile_not isBlank cs
  rw [hdrop] at hhead
  exact hhead

theorem isBlank_last_trimmed {cs front : List Char} {c : Char} (h : trimmed cs = front ++ [c]) :
    isBlank c = false := by
  have hdrop : (dropBlanks cs).reverse.dropWhile isBlank = c :: front.reverse := by
    rw [trimmed, dropBlanksRight] at h
    have hreversed := congrArg List.reverse h
    rwa [List.reverse_reverse, List.reverse_append, List.reverse_singleton] at hreversed
  have hhead := List.head?_dropWhile_not isBlank (dropBlanks cs).reverse
  rw [hdrop] at hhead
  exact hhead

theorem dropBlanksRight_eq_nil_iff {cs : List Char} :
    dropBlanksRight cs = [] ↔ ∀ c ∈ cs, isBlank c = true := by
  rw [dropBlanksRight, List.reverse_eq_nil_iff, List.dropWhile_eq_nil_iff]
  simp only [List.mem_reverse]

theorem dropBlanksRight_append_blanks (cs : List Char) {behind : List Char}
    (h : ∀ c ∈ behind, isBlank c = true) :
    dropBlanksRight (cs ++ behind) = dropBlanksRight cs := by
  rw [dropBlanksRight, List.reverse_append, List.dropWhile_append_of_pos, dropBlanksRight]
  intro c hc
  exact h c (List.mem_reverse.1 hc)

/-- What stands up to a character that is no blank is kept. -/
theorem dropBlanksRight_append_cons (front : List Char) {c : Char} (h : isBlank c = false)
    (cs : List Char) : dropBlanksRight (front ++ c :: cs) = front ++ c :: dropBlanksRight cs := by
  induction cs using List.reverseRecOn with
  | nil => exact dropBlanksRight_append_of_not h
  | append_singleton cs d ih =>
      cases hd : isBlank d with
      | true =>
          rw [← List.cons_append, ← List.append_assoc, dropBlanksRight_append_blank _ hd, ih,
            dropBlanksRight_append_blank _ hd]
      | false =>
          rw [← List.cons_append, ← List.append_assoc, dropBlanksRight_append_of_not hd,
            dropBlanksRight_append_of_not hd, List.append_assoc]
          rfl

theorem dropBlanksRight_prefix (cs : List Char) : dropBlanksRight cs <+: cs := by
  have hsuffix := List.dropWhile_suffix (l := cs.reverse) isBlank
  have hprefix := List.reverse_prefix.2 hsuffix
  rwa [List.reverse_reverse] at hprefix

theorem dropBlanks_append_blanks {before : List Char} (h : ∀ c ∈ before, isBlank c = true)
    (cs : List Char) : dropBlanks (before ++ cs) = dropBlanks cs :=
  List.dropWhile_append_of_pos h

/-- Blanks around characters that are no blanks are dropped. -/
theorem trimmed_of_blanks {before cs behind : List Char} (hbefore : ∀ c ∈ before, isBlank c = true)
    (hne : cs ≠ []) (h : ∀ c ∈ cs, isBlank c = false) (hbehind : ∀ c ∈ behind, isBlank c = true) :
    trimmed (before ++ (cs ++ behind)) = cs := by
  have hfront : dropBlanks (cs ++ behind) = cs ++ behind := by
    obtain ⟨c, rest, rfl⟩ := List.exists_cons_of_ne_nil hne
    exact dropBlanks_cons_of_not (h c List.mem_cons_self)
  rw [trimmed, dropBlanks_append_blanks hbefore, hfront, dropBlanksRight_append_blanks cs hbehind]
  exact dropBlanksRight_append_not_blank [] hne h

end ScriptDebugger.Text
