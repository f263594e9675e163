import Mathlib.Data.List.Induction
import ScriptDebugger.Proofs.Source.Order
import ScriptDebugger.Proofs.Text.Blanks
import ScriptDebugger.Proofs.Text.Rows
/-!
# Statements and what stands between them

A text is cut at the semicolons outside quotes, and on each line at the first `#` outside quotes.
Which characters stand outside quotes is said here by a grammar of the fronts of a line, apart from
the reader that goes over the line character by character and remembers only where it stands.

The reader holds a piece that it has not finished. What carries the induction is that the line is
what was read before the piece, the piece, and what is left to read, and that the piece has no
separator outside quotes.

## Main results

* `quotingOf_eq_bare_iff` — the reader stands outside quotes just behind the fronts of the grammar.
* `isPiece_of_mem_pieces`, `pieces_cover`, `pieces_separated` — the pieces of a line, and what
  stands between them.
* `split_partitions` — the statements of a text are runs of its lines, and all that they leave are
  blanks, separators and comments.
-/

namespace ScriptDebugger.Source

/-! ## Quotes -/

/-- What may stand between double quotes: a backslash takes the character behind it along. -/
inductive Escaped : List Char → Prop
  | nil : Escaped []
  | plain {body : List Char} {c : Char} (hbody : Escaped body) (hquote : c ≠ '"')
    (hescape : c ≠ '\\') : Escaped (body ++ [c])
  | escape {body : List Char} (hbody : Escaped body) (c : Char) : Escaped (body ++ ['\\', c])

/-- The fronts of a line behind which a reader stands outside quotes. -/
inductive Unquoted : List Char → Prop
  | nil : Unquoted []
  | plain {front : List Char} {c : Char} (hfront : Unquoted front) (hdouble : c ≠ '"')
    (hsingle : c ≠ '\'') : Unquoted (front ++ [c])
  | single {front body : List Char} (hfront : Unquoted front) (hbody : '\'' ∉ body) :
    Unquoted (front ++ ('\'' :: body ++ ['\'']))
  | double {front body : List Char} (hfront : Unquoted front) (hbody : Escaped body) :
    Unquoted (front ++ ('"' :: body ++ ['"']))

/-- Where a reader stands behind the front of a line. -/
def quotingOf (front : List Char) : Quoting := front.foldl Quoting.next .bare

theorem quotingOf_append_singleton (front : List Char) (c : Char) :
    quotingOf (front ++ [c]) = (quotingOf front).next c := by
  simp [quotingOf]

theorem Quoting.next_bare (c : Char) :
    next .bare c = if c = '"' then .double else if c = '\'' then .single else .bare := rfl

theorem Quoting.next_single (c : Char) :
    next .single c = if c = '\'' then .bare else .single := rfl

theorem Quoting.next_double (c : Char) :
    next .double c =
      if c = '\\' then .doubleEscape else if c = '"' then .bare else .double := rfl

/-- What a front of a line is if the reader stands so behind it. -/
def Quoting.Reads (front : List Char) : Quoting → Prop
  | .bare => Unquoted front
  | .single => ∃ before body, front = before ++ '\'' :: body ∧ Unquoted before ∧ '\'' ∉ body
  | .double => ∃ before body, front = before ++ '"' :: body ∧ Unquoted before ∧ Escaped body
  | .doubleEscape =>
    ∃ before body, front = before ++ '"' :: (body ++ ['\\']) ∧ Unquoted before ∧ Escaped body

/-- One character more. -/
theorem Quoting.Reads.next {front : List Char} {q : Quoting} (h : q.Reads front) (c : Char) :
    (q.next c).Reads (front ++ [c]) := by
  cases q with
  | bare =>
      by_cases hdouble : c = '"'
      · subst hdouble
        exact ⟨front, [], rfl, h, .nil⟩
      · by_cases hsingle : c = '\''
        · subst hsingle
          exact ⟨front, [], rfl, h, List.not_mem_nil⟩
        · rw [Quoting.next_bare, if_neg hdouble, if_neg hsingle]
          exact .plain h hdouble hsingle
  | single =>
      obtain ⟨before, body, rfl, hbefore, hbody⟩ := h
      by_cases hsingle : c = '\''
      · subst hsingle
        rw [List.append_assoc]
        exact .single hbefore hbody
      · rw [Quoting.next_single, if_neg hsingle]
        refine ⟨before, body ++ [c], by simp, hbefore, ?_⟩
        intro hmem
        rcases List.mem_append.1 hmem with hmem | hmem
        · exact hbody hmem
        · exact hsingle (List.mem_singleton.1 hmem).symm
  | double =>
      obtain ⟨before, body, rfl, hbefore, hbody⟩ := h
      by_cases hescape : c = '\\'
      · subst hescape
        exact ⟨before, body, by simp, hbefore, hbody⟩
      · by_cases hdouble : c = '"'
        · subst hdouble
          rw [List.append_assoc]
          exact .double hbefore hbody
        · rw [Quoting.next_double, if_neg hescape, if_neg hdouble]
          exact ⟨before, body ++ [c], by simp, hbefore, .plain hbody hdouble hescape⟩
  | doubleEscape =>
      obtain ⟨before, body, rfl, hbefore, hbody⟩ := h
      exact ⟨before, body ++ ['\\', c], by simp, hbefore, .escape hbody c⟩

theorem reads_quotingOf (front : List Char) : (quotingOf front).Reads front := by
  induction front using List.reverseRecOn with
  | nil => exact Unquoted.nil
  | append_singleton front c ih =>
      rw [quotingOf_append_singleton]
      exact ih.next c

theorem foldl_next_single {body : List Char} (h : '\'' ∉ body) :
    body.foldl Quoting.next .single = .single := by
  induction body with
  | nil => rfl
  | cons c rest ih =>
      have hc : c ≠ '\'' := fun heq => h (heq ▸ List.mem_cons_self)
      rw [List.foldl_cons, Quoting.next_single, if_neg hc]
      exact ih fun hmem => h (List.mem_cons_of_mem c hmem)

theorem foldl_next_double {body : List Char} (h : Escaped body) :
    body.foldl Quoting.next .double = .double := by
  induction h with
  | nil => rfl
  | plain hbody hquote hescape ih =>
      rw [List.foldl_append, ih, List.foldl_cons, Quoting.next_double, if_neg hescape,
        if_neg hquote]
      rfl
  | escape hbody c ih =>
      rw [List.foldl_append, ih]
      rfl

theorem quotingOf_unquoted {front : List Char} (h : Unquoted front) : quotingOf front = .bare := by
  induction h with
  | nil => rfl
  | plain hfront hdouble hsingle ih =>
      rw [quotingOf_append_singleton, ih, Quoting.next_bare, if_neg hdouble, if_neg hsingle]
  | single hfront hbody ih =>
      rw [← List.append_assoc, quotingOf_append_singleton, quotingOf, List.foldl_append,
        ← quotingOf, ih, List.foldl_cons]
      exact congrArg (Quoting.next · '\'') (foldl_next_single hbody)
  | double hfront hbody ih =>
      rw [← List.append_assoc, quotingOf_append_singleton, quotingOf, List.foldl_append,
        ← quotingOf, ih, List.foldl_cons]
      exact congrArg (Quoting.next · '"') (foldl_next_double hbody)

/-- The reader stands outside quotes just behind the fronts of the grammar. -/
theorem quotingOf_eq_bare_iff {front : List Char} : quotingOf front = .bare ↔ Unquoted front := by
  constructor
  · intro hbare
    have hreads := reads_quotingOf front
    rw [hbare] at hreads
    exact hreads
  · exact quotingOf_unquoted

/-- A character of a line stands outside quotes in a column. -/
structure StandsBare (row : List Char) (column : Nat) (c : Char) : Prop where
  there : row[column]? = some c
  unquoted : Unquoted (row.take column)

/-- A column of a line lies in its comment: at the first `#` outside quotes, or behind it. -/
def InComment (row : List Char) (column : Nat) : Prop :=
  ∃ mark, mark ≤ column ∧ StandsBare row mark '#'

namespace Statement

/-! ## Pieces of a line -/

/-- A run of a line from a column on, without a separator or a comment outside quotes. -/
structure IsPiece (row : List Char) (piece : Nat × List Char) : Prop where
  run : (row.drop piece.1).take piece.2.length = piece.2
  clean : ∀ column, piece.1 ≤ column → column < piece.1 + piece.2.length →
    ¬StandsBare row column ';' ∧ ¬StandsBare row column '#'

/-- The columns of a piece. -/
def Spans (piece : Nat × List Char) (column : Nat) : Prop :=
  piece.1 ≤ column ∧ column < piece.1 + piece.2.length

theorem IsPiece.getElem? {row : List Char} {piece : Nat × List Char} (h : IsPiece row piece)
    {column : Nat} (hspans : Spans piece column) : piece.2[column - piece.1]? = row[column]? := by
  obtain ⟨hfrom, hto⟩ := hspans
  rw [← h.run, List.getElem?_take_of_lt (by omega), List.getElem?_drop, Nat.add_sub_cancel' hfrom]

section

variable {row front piece cs : List Char} {q : Quoting}

/-- What the reader of a line knows: `front` was cut off, `piece` is being read, `cs` is left. -/
structure Reading (row front piece cs : List Char) (q : Quoting) : Prop where
  whole : row = front ++ (piece.reverse ++ cs)
  quoting : quotingOf (front ++ piece.reverse) = q
  clean : ∀ column, front.length ≤ column → column < front.length + piece.length →
    ¬StandsBare row column ';' ∧ ¬StandsBare row column '#'

namespace Reading

theorem isPiece (h : Reading row front piece cs q) :
    IsPiece row (front.length, piece.reverse) where
  run := by rw [h.whole, List.drop_left, List.take_left]
  clean column hfrom hto := h.clean column hfrom (by rwa [List.length_reverse] at hto)

/-- The next character of the line, and what was read before it. -/
theorem there {c : Char} (h : Reading row front piece (c :: cs) q) :
    row[front.length + piece.length]? = some c ∧
      row.take (front.length + piece.length) = front ++ piece.reverse := by
  have hlength : front.length + piece.length = (front ++ piece.reverse).length := by simp
  rw [h.whole, ← List.append_assoc, hlength, List.take_left,
    List.getElem?_append_right (Nat.le_refl _), Nat.sub_self]
  exact ⟨rfl, rfl⟩

theorem standsBare {c : Char} (h : Reading row front piece (c :: cs) .bare) :
    StandsBare row (front.length + piece.length) c := by
  obtain ⟨hthere, htake⟩ := h.there
  exact ⟨hthere, htake ▸ quotingOf_eq_bare_iff.1 h.quoting⟩

/-- A character joins the piece. -/
theorem push {c : Char} (h : Reading row front piece (c :: cs) q)
    (hmark : ¬(q = .bare ∧ c = '#')) (hseparator : ¬(q = .bare ∧ c = ';')) :
    Reading row front (c :: piece) cs (q.next c) where
  whole := by rw [h.whole]; simp
  quoting := by
    rw [List.reverse_cons, ← List.append_assoc, quotingOf_append_singleton, h.quoting]
  clean column hfrom hto := by
    rw [List.length_cons] at hto
    by_cases hbefore : column < front.length + piece.length
    · exact h.clean column hfrom hbefore
    · obtain rfl : column = front.length + piece.length := by omega
      obtain ⟨hthere, htake⟩ := h.there
      have hother : ∀ d, ¬(q = .bare ∧ c = d) →
          ¬StandsBare row (front.length + piece.length) d := by
        intro d hd hbare
        refine hd ⟨?_, Option.some.inj (hthere.symm.trans hbare.there)⟩
        have hunquoted := hbare.unquoted
        rw [htake] at hunquoted
        exact h.quoting.symm.trans (quotingOf_eq_bare_iff.2 hunquoted)
      exact ⟨hother ';' hseparator, hother '#' hmark⟩

/-- A separator ends the piece. -/
theorem cut (h : Reading row front piece (';' :: cs) .bare) :
    Reading row (front ++ piece.reverse ++ [';']) [] cs .bare where
  whole := by rw [h.whole]; simp
  quoting := by
    rw [List.reverse_nil, List.append_nil, quotingOf_append_singleton, h.quoting]
    rfl
  clean column hfrom hto := absurd hto (Nat.not_lt_of_le hfrom)

theorem length_cut (front piece : List Char) :
    (front ++ piece.reverse ++ [';']).length = front.length + piece.length + 1 := by
  rw [List.length_append, List.length_append, List.length_reverse, List.length_singleton]

end Reading

/-- The pieces of a line are runs of it without separators and comments. -/
theorem isPiece_of_mem_pieces (h : Reading row front piece cs q) :
    ∀ p ∈ pieces q front.length piece cs, IsPiece row p := by
  induction cs generalizing front piece q with
  | nil =>
      intro p hp
      obtain rfl := List.mem_singleton.1 hp
      exact h.isPiece
  | cons c cs ih =>
      intro p hp
      rw [pieces_cons] at hp
      by_cases hmark : q = .bare ∧ c = '#'
      · rw [if_pos hmark] at hp
        obtain rfl := List.mem_singleton.1 hp
        exact h.isPiece
      · rw [if_neg hmark] at hp
        by_cases hseparator : q = .bare ∧ c = ';'
        · rw [if_pos hseparator, ← Reading.length_cut] at hp
          obtain ⟨rfl, rfl⟩ := hseparator
          rcases List.mem_cons.1 hp with rfl | hp
          · exact h.isPiece
          · exact ih h.cut p hp
        · rw [if_neg hseparator] at hp
          exact ih (h.push hmark hseparator) p hp

/-- What is in no piece is a separator, or in the comment. -/
theorem pieces_cover (h : Reading row front piece cs q) {column : Nat}
    (hfrom : front.length ≤ column) (hto : column < row.length) :
    (∃ p ∈ pieces q front.length piece cs, Spans p column) ∨ StandsBare row column ';' ∨
      InComment row column := by
  have hspans : column < front.length + piece.length →
      Spans (front.length, piece.reverse) column := by
    intro hlt
    exact ⟨hfrom, by rwa [List.length_reverse]⟩
  induction cs generalizing front piece q with
  | nil =>
      refine .inl ⟨_, List.mem_singleton_self _, hspans ?_⟩
      rw [h.whole] at hto
      simpa using hto
  | cons c cs ih =>
      rw [pieces_cons]
      by_cases hmark : q = .bare ∧ c = '#'
      · rw [if_pos hmark]
        by_cases hinside : column < front.length + piece.length
        · exact .inl ⟨_, List.mem_singleton_self _, hspans hinside⟩
        · obtain ⟨rfl, rfl⟩ := hmark
          exact .inr (.inr ⟨_, Nat.le_of_not_lt hinside, h.standsBare⟩)
      · rw [if_neg hmark]
        by_cases hseparator : q = .bare ∧ c = ';'
        · rw [if_pos hseparator, ← Reading.length_cut]
          obtain ⟨rfl, rfl⟩ := hseparator
          by_cases hinside : column < front.length + piece.length
          · exact .inl ⟨_, List.mem_cons_self, hspans hinside⟩
          · by_cases hhere : column = front.length + piece.length
            · subst hhere
              exact .inr (.inl h.standsBare)
            · have hbehind : (front ++ piece.reverse ++ [';']).length ≤ column := by
                rw [Reading.length_cut]
                omega
              rcases ih h.cut hbehind (fun hlt => absurd hlt (Nat.not_lt_of_le hbehind)) with
                ⟨p, hp, hcolumn⟩ | hothers
              · exact .inl ⟨p, List.mem_cons_of_mem _ hp, hcolumn⟩
              · exact .inr hothers
        · rw [if_neg hseparator]
          refine ih (h.push hmark hseparator) hfrom ?_
          intro hlt
          exact ⟨hfrom, by rwa [List.length_reverse]⟩

/-- Between two pieces there is a separator. -/
theorem pieces_separated (h : Reading row front piece cs q) :
    (pieces q front.length piece cs).Pairwise fun p p' =>
      ∃ column, p.1 + p.2.length ≤ column ∧ column < p'.1 ∧ StandsBare row column ';' := by
  induction cs generalizing front piece q with
  | nil => exact List.pairwise_singleton _ _
  | cons c cs ih =>
      rw [pieces_cons]
      by_cases hmark : q = .bare ∧ c = '#'
      · rw [if_pos hmark]
        exact List.pairwise_singleton _ _
      · rw [if_neg hmark]
        by_cases hseparator : q = .bare ∧ c = ';'
        · rw [if_pos hseparator]
          obtain ⟨rfl, rfl⟩ := hseparator
          have hrest := ih h.cut
          rw [Reading.length_cut] at hrest
          refine List.pairwise_cons.2 ⟨?_, hrest⟩
          intro p hp
          have hstart := (pieces_ordered .bare (front.length + piece.length + 1) [] cs).2 p hp
          refine ⟨front.length + piece.length, ?_, hstart, h.standsBare⟩
          rw [List.length_reverse]
        · rw [if_neg hseparator]
          exact ih (h.push hmark hseparator)

end

/-- Before the first character of a line. -/
theorem reading_start (row : List Char) : Reading row [] [] row .bare where
  whole := rfl
  quoting := rfl
  clean column _ hto := absurd hto (Nat.not_lt_zero column)

/-! ## Statements of a line -/

/-- A piece that makes no statement is blank. -/
theorem isBlank_of_ofPiece?_none {line : Nat} {piece : Nat × List Char}
    (h : ofPiece? line piece = none) : ∀ c ∈ piece.2, Text.isBlank c = true := by
  have htrimmed : Text.trimmed piece.2 = [] := by
    unfold ofPiece? at h
    split at h
    · assumption
    · cases h
  obtain ⟨behind, hsplit, hbehind⟩ := Text.exists_trimmed piece.2
  rw [htrimmed, List.nil_append] at hsplit
  intro c hc
  rw [hsplit] at hc
  rcases List.mem_append.1 hc with hc | hc
  · exact List.all_eq_true.1 List.all_takeWhile c hc
  · exact hbehind c hc

/-- The statement of a piece is the piece without the blanks at its ends. -/
structure Trims (line : Nat) (piece : Nat × List Char) (s : Statement) : Prop where
  line : s.location.line = line
  text : s.text.toList = Text.trimmed piece.2
  nonempty : s.text.toList ≠ []
  split : ∃ before behind, piece.2 = before ++ (s.text.toList ++ behind) ∧
    s.location.column = piece.1 + before.length ∧ (∀ c ∈ before, Text.isBlank c = true) ∧
    ∀ c ∈ behind, Text.isBlank c = true

theorem trims_of_ofPiece? {line : Nat} {piece : Nat × List Char} {s : Statement}
    (h : ofPiece? line piece = some s) : Trims line piece s := by
  unfold ofPiece? at h
  split at h
  · cases h
  · rename_i hnonempty
    obtain rfl := Option.some.inj h
    obtain ⟨behind, hsplit, hbehind⟩ := Text.exists_trimmed piece.2
    refine ⟨rfl, String.toList_ofList, ?_, piece.2.takeWhile Text.isBlank, behind, ?_, rfl, ?_,
      hbehind⟩
    · rw [String.toList_ofList]
      exact hnonempty
    · rw [String.toList_ofList]
      exact hsplit
    · exact fun c hc => List.all_eq_true.1 List.all_takeWhile c hc

/-- A statement lies in its piece. -/
theorem Trims.within {line : Nat} {piece : Nat × List Char} {s : Statement}
    (h : Trims line piece s) : piece.1 ≤ s.location.column ∧
      s.location.column + s.text.length ≤ piece.1 + piece.2.length := by
  obtain ⟨before, behind, hsplit, hcolumn, -, -⟩ := h.split
  rw [hsplit, List.length_append, List.length_append, String.length_toList]
  omega

/-- The columns of a statement. -/
def Covers (s : Statement) (column : Nat) : Prop :=
  s.location.column ≤ column ∧ column < s.location.column + s.text.length

/-- What a statement is on its line. -/
structure IsRun (row : List Char) (s : Statement) : Prop where
  /-- It is the run of the line that starts at its column and is as long as its text. -/
  run : (row.drop s.location.column).take s.text.length = s.text.toList
  /-- It begins with a character that is not blank. -/
  first : ∃ c rest, s.text.toList = c :: rest ∧ Text.isBlank c = false
  /-- It ends with a character that is not blank. -/
  last : ∃ c front, s.text.toList = front ++ [c] ∧ Text.isBlank c = false
  /-- It has no separator and no comment outside quotes. -/
  clean : ∀ column, s.Covers column → ¬StandsBare row column ';' ∧ ¬StandsBare row column '#'

theorem Trims.isRun {row : List Char} {line : Nat} {piece : Nat × List Char} {s : Statement}
    (h : Trims line piece s) (hpiece : IsPiece row piece) : IsRun row s := by
  obtain ⟨before, behind, hsplit, hcolumn, -, -⟩ := h.split
  have hwithin := h.within
  constructor
  · have hrun := congrArg (fun cs => (cs.drop before.length).take s.text.length) hpiece.run
    have hfits : s.text.length ≤ piece.2.length - before.length := by omega
    simp only [List.drop_take, List.drop_drop, List.take_take, Nat.min_eq_left hfits] at hrun
    rw [hcolumn, hrun, hsplit, List.drop_left, ← String.length_toList, List.take_left]
  · cases htext : s.text.toList with
    | nil => exact absurd htext h.nonempty
    | cons c rest => exact ⟨c, rest, rfl, Text.isBlank_head_trimmed (h.text.symm.trans htext)⟩
  · have hlast := List.dropLast_concat_getLast h.nonempty
    exact ⟨_, _, hlast.symm, Text.isBlank_last_trimmed (h.text.symm.trans hlast.symm)⟩
  · intro column hcovers
    obtain ⟨hfrom, hto⟩ := hcovers
    exact hpiece.clean column (by omega) (by omega)

/-- What of a piece is not in its statement is blank. -/
theorem Trims.isBlank {row : List Char} {line : Nat} {piece : Nat × List Char} {s : Statement}
    (h : Trims line piece s) (hpiece : IsPiece row piece) {column : Nat} {c : Char}
    (hspans : Spans piece column) (hcovers : ¬s.Covers column) (hc : row[column]? = some c) :
    Text.isBlank c = true := by
  obtain ⟨before, behind, hsplit, hcolumn, hbefore, hbehind⟩ := h.split
  have hinside := (hpiece.getElem? hspans).trans hc
  obtain ⟨hfrom, hto⟩ := hspans
  have hapart : column < s.location.column ∨ s.location.column + s.text.length ≤ column := by
    by_cases hleft : column < s.location.column
    · exact .inl hleft
    · exact .inr (Nat.le_of_not_lt fun hright => hcovers ⟨Nat.le_of_not_lt hleft, hright⟩)
  rw [hsplit] at hinside
  rcases hapart with hleft | hright
  · rw [List.getElem?_append_left (by omega)] at hinside
    exact hbefore c (List.mem_of_getElem? hinside)
  · have hlength := String.length_toList (s := s.text)
    rw [List.getElem?_append_right (by omega), List.getElem?_append_right (by omega)] at hinside
    exact hbehind c (List.mem_of_getElem? hinside)

/-- A statement of a line stands in a piece of it. -/
theorem exists_piece {line : Nat} {row : List Char} {s : Statement} (h : s ∈ ofLine line row) :
    ∃ p ∈ pieces .bare 0 [] row, Trims line p s := by
  obtain ⟨p, hp, hs⟩ := List.mem_filterMap.1 h
  exact ⟨p, hp, trims_of_ofPiece? hs⟩

/-- What a line holds besides its statements. -/
theorem ofLine_cover {line column : Nat} {row : List Char} {c : Char}
    (hc : row[column]? = some c) (hothers : ∀ s ∈ ofLine line row, ¬s.Covers column) :
    Text.isBlank c = true ∨ c = ';' ∧ StandsBare row column ';' ∨ InComment row column := by
  have hto : column < row.length := (List.getElem?_eq_some_iff.1 hc).1
  rcases pieces_cover (reading_start row) (Nat.zero_le column) hto with
    ⟨p, hp, hspans⟩ | hseparator | hcomment
  · have hpiece := isPiece_of_mem_pieces (reading_start row) p hp
    refine .inl ?_
    cases hs : ofPiece? line p with
    | none =>
        have hinside := (hpiece.getElem? hspans).trans hc
        exact isBlank_of_ofPiece?_none hs c (List.mem_of_getElem? hinside)
    | some s =>
        have hmem : s ∈ ofLine line row := List.mem_filterMap.2 ⟨p, hp, hs⟩
        exact (trims_of_ofPiece? hs).isBlank hpiece hspans (hothers s hmem) hc
  · exact .inr (.inl ⟨Option.some.inj (hc.symm.trans hseparator.there), hseparator⟩)
  · exact .inr (.inr hcomment)

/-- Between two statements of a line there is a separator. -/
theorem ofLine_separated (line : Nat) (row : List Char) :
    (ofLine line row).Pairwise fun s t =>
      ∃ column, s.location.column + s.text.length ≤ column ∧ column < t.location.column ∧
        StandsBare row column ';' := by
  refine (pieces_separated (reading_start row)).filterMap _ ?_
  intro p p' hapart s hs t ht
  obtain ⟨column, hleft, hright, hbare⟩ := hapart
  have hends := (trims_of_ofPiece? hs).within.2
  have hstarts := (trims_of_ofPiece? ht).within.1
  exact ⟨column, by omega, by omega, hbare⟩

/-! ## Statements of a text -/

/-- The statements of lines are those of each line under its number. -/
theorem mem_ofLines_iff {first : Nat} {rows : List (List Char)} {s : Statement} :
    s ∈ ofLines first rows ↔ ∃ k row, rows[k]? = some row ∧ s ∈ ofLine (first + k) row := by
  induction rows generalizing first with
  | nil => simp [ofLines]
  | cons row rest ih =>
      rw [ofLines, List.mem_append, ih]
      constructor
      · rintro (hs | ⟨k, other, hother, hs⟩)
        · exact ⟨0, row, rfl, hs⟩
        · refine ⟨k + 1, other, hother, ?_⟩
          rwa [Nat.add_assoc, Nat.add_comm 1 k] at hs
      · rintro ⟨k, other, hother, hs⟩
        cases k with
        | zero =>
            obtain rfl := Option.some.inj hother
            exact .inl hs
        | succ k =>
            refine .inr ⟨k, other, hother, ?_⟩
            rwa [Nat.add_assoc, Nat.add_comm 1 k]

/-- The line of a number, counted from one. -/
def rowAt? (rows : List (List Char)) (line : Nat) : Option (List Char) :=
  match line with
  | 0 => none
  | k + 1 => rows[k]?

/-- Statements that are cut out of lines. -/
structure Partitions (rows : List (List Char)) (statements : List Statement) : Prop where
  /-- Each statement is a run of its line. -/
  runs : ∀ s ∈ statements, ∃ row, rowAt? rows s.location.line = some row ∧ IsRun row s
  /-- They stand in order, and two of them on one line have a separator between them. -/
  ordered : statements.Pairwise fun s t =>
    s.location.line < t.location.line ∨
      s.location.line = t.location.line ∧
        ∃ row column, rowAt? rows s.location.line = some row ∧
          s.location.column + s.text.length ≤ column ∧ column < t.location.column ∧
          StandsBare row column ';'
  /-- Everything else is blank, a separator or in a comment. -/
  others : ∀ line row column c, rowAt? rows line = some row → row[column]? = some c →
    (∀ s ∈ statements, s.location.line = line → ¬s.Covers column) →
    Text.isBlank c = true ∨ c = ';' ∧ StandsBare row column ';' ∨ InComment row column

theorem rowAt?_of_mem_ofLines {rows : List (List Char)} {s : Statement} (h : s ∈ ofLines 1 rows) :
    ∃ row, rowAt? rows s.location.line = some row ∧ s ∈ ofLine s.location.line row := by
  obtain ⟨k, row, hrow, hs⟩ := mem_ofLines_iff.1 h
  have hline := (ofLine_ordered (1 + k) row).2 s hs
  rw [hline]
  refine ⟨row, ?_, hs⟩
  rwa [Nat.add_comm, rowAt?]

/-- The statements of lines that follow each other. -/
theorem ofLines_separated (first : Nat) (rows : List (List Char)) :
    (ofLines first rows).Pairwise fun s t =>
      s.location.line < t.location.line ∨
        s.location.line = t.location.line ∧
          ∃ k row column, s.location.line = first + k ∧ rows[k]? = some row ∧
            s.location.column + s.text.length ≤ column ∧ column < t.location.column ∧
            StandsBare row column ';' := by
  induction rows generalizing first with
  | nil => exact List.Pairwise.nil
  | cons row rest ih =>
      have hline := (ofLine_ordered first row).2
      have hbehind := (ofLines_ordered (first + 1) rest).2
      rw [ofLines]
      refine List.pairwise_append.2 ⟨?_, ?_, ?_⟩
      · refine (ofLine_separated first row).imp_of_mem ?_
        intro s t hs ht hapart
        obtain ⟨column, hleft, hright, hbare⟩ := hapart
        exact .inr ⟨(hline s hs).trans (hline t ht).symm, 0, row, column, hline s hs, rfl, hleft,
          hright, hbare⟩
      · refine (ih (first + 1)).imp ?_
        intro s t hst
        rcases hst with hbefore | ⟨hsame, k, other, column, hk, hother, hrest⟩
        · exact .inl hbefore
        · exact .inr ⟨hsame, k + 1, other, column, by omega, hother, hrest⟩
      · intro s hs t ht
        have hs := hline s hs
        have ht := hbehind t ht
        exact .inl (by omega)

/-- The statements of a text partition it. The text is its lines with their ends; on its lines, the
statements are runs that stand in order, and leave only blanks, separators and comments. -/
theorem split_partitions (source : String) :
    Text.Rows (Text.lines source) source.toList ∧
      Partitions (Text.lines source) (split source) := by
  refine ⟨Text.rows_lines source, ?_, ?_, ?_⟩
  · intro s hs
    obtain ⟨row, hrow, hs⟩ := rowAt?_of_mem_ofLines hs
    obtain ⟨p, hp, htrims⟩ := exists_piece hs
    exact ⟨row, hrow, htrims.isRun (isPiece_of_mem_pieces (reading_start row) p hp)⟩
  · refine (ofLines_separated 1 (Text.lines source)).imp ?_
    intro s t hst
    rcases hst with hbefore | ⟨hsame, k, row, column, hk, hrow, hrest⟩
    · exact .inl hbefore
    · refine .inr ⟨hsame, row, column, ?_, hrest⟩
      rwa [hk, Nat.add_comm, rowAt?]
  · intro line row column c hrow hc hothers
    suffices hleft : ∀ s ∈ ofLine line row, ¬s.Covers column from ofLine_cover hc hleft
    intro s hs
    have hline := (ofLine_ordered line row).2 s hs
    refine hothers s ?_ hline
    cases line with
    | zero => cases hrow
    | succ k => exact mem_ofLines_iff.2 ⟨k, row, hrow, by rwa [Nat.add_comm]⟩

end Statement

end ScriptDebugger.Source
