/-!
# Sets of characters

A set of characters is a list of ranges of code points, written in ascending order without
overlap. The tables of the Unicode properties are values of this type.

## Main results

* `CharSet.contains_eq_any` — on an ascending table the search that stops early finds what a scan
  of all ranges finds.
-/

namespace ScriptDebugger.Text

/-- Ranges of code points, both ends included. -/
structure CharSet where
  /-- The ranges, in ascending order. -/
  ranges : List (Nat × Nat)

namespace CharSet

/-- Looks for `n` in ascending ranges: the first range that does not end before `n` decides. -/
def search (n : Nat) : List (Nat × Nat) → Bool
  | [] => false
  | (low, high) :: rest => if high < n then search n rest else decide (low ≤ n)

/-- Whether a character belongs to the set. -/
def contains (s : CharSet) (c : Char) : Bool := search c.toNat s.ranges

/-- Each range is non-empty and ends before the next one starts. -/
def Ascending (ranges : List (Nat × Nat)) : Prop :=
  (∀ r ∈ ranges, r.1 ≤ r.2) ∧ ranges.Pairwise fun r s => r.2 < s.1

theorem search_eq_any (n : Nat) {ranges : List (Nat × Nat)} (h : Ascending ranges) :
    search n ranges = ranges.any fun r => decide (r.1 ≤ n ∧ n ≤ r.2) := by
  induction ranges with
  | nil => rfl
  | cons r rest ih =>
    obtain ⟨low, high⟩ := r
    obtain ⟨hle, hpair⟩ := h
    have hrest : Ascending rest :=
      ⟨fun s hs => hle s (List.mem_cons_of_mem _ hs), (List.pairwise_cons.1 hpair).2⟩
    by_cases hn : high < n
    · have : ¬ n ≤ high := by omega
      simp [search, hn, this, ih hrest]
    · have hnone : (rest.any fun r => decide (r.1 ≤ n ∧ n ≤ r.2)) = false := by
        simp only [List.any_eq_false, decide_eq_true_eq, not_and]
        intro s hs
        have := (List.pairwise_cons.1 hpair).1 s hs
        simp only at this
        omega
      have : n ≤ high := by omega
      simp only [search, hn, this, hnone, if_false, List.any_cons, Bool.or_false, and_true]

theorem contains_eq_any {s : CharSet} (h : Ascending s.ranges) (c : Char) :
    s.contains c = s.ranges.any fun r => decide (r.1 ≤ c.toNat ∧ c.toNat ≤ r.2) :=
  search_eq_any _ h

end CharSet

end ScriptDebugger.Text
