import ScriptDebugger.Source.Statement
/-!
# Statements stand in order

The statements of a text start at places that follow each other: on a line from left to right, and
line by line. No two statements start at the same place.

## Main results

* `pieces_ordered` — the pieces of a line do not overlap.
* `split_ordered` — the statements of a text stand in order.
-/

namespace ScriptDebugger

/-- One place stands before another one in a text. -/
def Location.Before (a b : Location) : Prop :=
  a.line < b.line ∨ a.line = b.line ∧ a.column < b.column

theorem Location.Before.ne {a b : Location} (h : Before a b) : a ≠ b := by
  rintro rfl
  rcases h with h | ⟨-, h⟩
  · exact Nat.lt_irrefl _ h
  · exact Nat.lt_irrefl _ h

namespace Source.Statement

/-- A character ends the line, ends a piece or belongs to it. -/
theorem pieces_cons (q : Quoting) (start : Nat) (piece : List Char) (c : Char) (cs : List Char) :
    pieces q start piece (c :: cs) =
      if q = .bare ∧ c = '#' then [(start, piece.reverse)]
      else if q = .bare ∧ c = ';' then
        (start, piece.reverse) :: pieces .bare (start + piece.length + 1) [] cs
      else pieces (q.next c) start (c :: piece) cs := rfl

/-- The pieces of a line do not overlap, and the first one starts at `start`. -/
theorem pieces_ordered (q : Quoting) (start : Nat) (piece cs : List Char) :
    (pieces q start piece cs).Pairwise (fun a b => a.1 + a.2.length < b.1) ∧
      ∀ p ∈ pieces q start piece cs, start ≤ p.1 := by
  induction cs generalizing q start piece with
  | nil => simp [pieces]
  | cons c cs ih =>
      rw [pieces_cons]
      split
      · simp
      · split
        · obtain ⟨hrest, hfrom⟩ := ih .bare (start + piece.length + 1) []
          refine ⟨List.pairwise_cons.2 ⟨?_, hrest⟩, ?_⟩
          · intro p hp
            have hstart := hfrom p hp
            rw [List.length_reverse]
            omega
          · intro p hp
            rcases List.mem_cons.1 hp with rfl | hp
            · exact Nat.le_refl start
            · have hstart := hfrom p hp
              omega
        · exact ih (q.next c) start (c :: piece)

/-- A statement starts inside its piece. -/
theorem ofPiece?_column {line : Nat} {piece : Nat × List Char} {s : Statement}
    (h : ofPiece? line piece = some s) :
    s.location.line = line ∧ piece.1 ≤ s.location.column ∧
      s.location.column < piece.1 + piece.2.length := by
  unfold ofPiece? at h
  split at h
  · cases h
  · rename_i text htext
    obtain rfl := Option.some.inj h
    refine ⟨rfl, Nat.le_add_right _ _, ?_⟩
    have hblanks : (piece.2.takeWhile Text.isBlank).length < piece.2.length := by
      have hlength := congrArg List.length
        (List.takeWhile_append_dropWhile (p := Text.isBlank) (l := piece.2))
      rw [List.length_append] at hlength
      have hdrop : piece.2.dropWhile Text.isBlank ≠ [] := by
        intro hnil
        refine htext ?_
        simp [Text.trimmed, Text.dropBlanks, hnil, Text.dropBlanksRight]
      have hpositive := List.length_pos_iff.2 hdrop
      omega
    show piece.1 + (piece.2.takeWhile Text.isBlank).length < piece.1 + piece.2.length
    omega

/-- The statements of a line stand in order. -/
theorem ofLine_ordered (line : Nat) (cs : List Char) :
    (ofLine line cs).Pairwise (fun a b => Location.Before a.location b.location) ∧
      ∀ s ∈ ofLine line cs, s.location.line = line := by
  obtain ⟨hpieces, -⟩ := pieces_ordered .bare 0 [] cs
  constructor
  · refine hpieces.filterMap _ ?_
    intro p q hpq s hs t ht
    obtain ⟨hline, -, hright⟩ := ofPiece?_column hs
    obtain ⟨hline', hleft, -⟩ := ofPiece?_column ht
    exact Or.inr ⟨hline.trans hline'.symm, by omega⟩
  · intro s hs
    obtain ⟨p, -, hp⟩ := List.mem_filterMap.1 hs
    exact (ofPiece?_column hp).1

theorem ofLines_ordered (line : Nat) (rows : List (List Char)) :
    (ofLines line rows).Pairwise (fun a b => Location.Before a.location b.location) ∧
      ∀ s ∈ ofLines line rows, line ≤ s.location.line := by
  induction rows generalizing line with
  | nil => simp [ofLines]
  | cons cs rest ih =>
      obtain ⟨hrow, hline⟩ := ofLine_ordered line cs
      obtain ⟨hrest, hfrom⟩ := ih (line + 1)
      rw [ofLines]
      refine ⟨List.pairwise_append.2 ⟨hrow, hrest, ?_⟩, ?_⟩
      · intro s hs t ht
        have hs := hline s hs
        have ht := hfrom t ht
        exact Or.inl (by omega)
      · intro s hs
        rcases List.mem_append.1 hs with hs | hs
        · exact Nat.le_of_eq (hline s hs).symm
        · exact Nat.le_of_succ_le (hfrom s hs)

/-- The statements of a text stand in order. -/
theorem split_ordered (source : String) :
    (split source).Pairwise (fun a b => Location.Before a.location b.location) :=
  (ofLines_ordered 1 (Text.lines source)).1

end Source.Statement

end ScriptDebugger
