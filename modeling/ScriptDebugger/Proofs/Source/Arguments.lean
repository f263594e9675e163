import Mathlib
import ScriptDebugger.Proofs.Source.Splitting
import ScriptDebugger.Source.Command
/-!
# Quotes in the arguments of a call

The text of a call is read twice. The reader of its line looks for the separators and the comment
outside quotes; the shell reader cuts what stands behind the keyword into words, and knows quotes,
escapes and comments of its own. On a line without a backslash outside quotes the two stand inside
the same quotes behind every character.

The shell reader tells the inside of a word from the gap between two words, which the other one does
not. Therefore the two are related by `Agrees`, and not by a function. What stands behind the
keyword is the line without some blanks, a keyword and what is cut off at a separator or a comment,
all of it outside quotes, so that the shell reader begins where the other one is outside quotes too.

## Main results

* `splitFrom_append` — the shell reader goes on from where it stands.
* `Agrees.advance` — a character keeps the two readers together.
* `splitFrom_eq_none_iff` — the shell reader fails where the other one ends inside quotes.
* `words_of_runs` — each word is read from a run of its own.
* `call_quotes_agree` — both hold of every call and deferral of a source text.
-/

namespace ScriptDebugger.Source

open Text (ShellWord.Mode ShellWord.advance ShellWord.splitFrom ShellWord.split?
  ShellWord.isSeparator)

/-! ## The shell reader -/

/-- Where the shell reader stands behind some characters. The word that it has read so far does not
matter for that. -/
def modeFrom (mode : ShellWord.Mode) (cs : List Char) : ShellWord.Mode :=
  cs.foldl (fun mode c => (ShellWord.advance mode [] c).1) mode

theorem advance_fst (mode : ShellWord.Mode) (word : List Char) (c : Char) :
    (ShellWord.advance mode word c).1 = (ShellWord.advance mode [] c).1 := by
  cases mode <;> simp only [ShellWord.advance] <;> split_ifs <;> rfl

/-- A word is finished where a separator stands outside quotes. -/
theorem splitFrom_cons (mode : ShellWord.Mode) (word : List Char) (c : Char) (cs : List Char) :
    ShellWord.splitFrom mode word (c :: cs) =
      if mode = .bare ∧ (ShellWord.advance mode word c).1 = .gap then
        (ShellWord.splitFrom .gap [] cs).map ((ShellWord.advance mode word c).2.reverse :: ·)
      else
        ShellWord.splitFrom (ShellWord.advance mode word c).1 (ShellWord.advance mode word c).2 cs := by
  conv_lhs => unfold ShellWord.splitFrom
  rcases ShellWord.advance mode word c with ⟨next, word'⟩
  cases mode <;> cases next <;> rfl

/-- The shell reader goes on from where it stands. -/
theorem splitFrom_append (mode : ShellWord.Mode) (word front cs : List Char) :
    ∃ words word', ShellWord.splitFrom mode word (front ++ cs) =
      (ShellWord.splitFrom (modeFrom mode front) word' cs).map (words ++ ·) := by
  induction front generalizing mode word with
  | nil => exact ⟨[], word, by simp [modeFrom]⟩
  | cons c front ih =>
      have hmode : modeFrom mode (c :: front) =
          modeFrom (ShellWord.advance mode word c).1 front := by
        rw [advance_fst]
        rfl
      rw [List.cons_append, splitFrom_cons, hmode]
      split
      · rename_i hends
        obtain ⟨words, word', hrest⟩ := ih .gap []
        rw [hends.2, hrest, Option.map_map]
        exact ⟨(ShellWord.advance mode word c).2.reverse :: words, word', rfl⟩
      · exact ih _ _

/-! ## Two readers side by side -/

/-- The shell reader stands inside the same quotes as the reader of the line. -/
inductive Agrees : Quoting → ShellWord.Mode → Prop
  | gap : Agrees .bare .gap
  | bare : Agrees .bare .bare
  | single : Agrees .single .single
  | double : Agrees .double .double
  | doubleEscape : Agrees .doubleEscape .doubleEscape

theorem Agrees.not_comment {q : Quoting} {mode : ShellWord.Mode} (h : Agrees q mode) :
    mode ≠ .comment := by
  rintro rfl
  cases h

/-- Outside quotes there is neither a `#` nor a backslash in what is left to read. -/
inductive Plain : Quoting → List Char → Prop
  | nil (q : Quoting) : Plain q []
  | cons {q : Quoting} {c : Char} {cs : List Char} (hc : q = .bare → c ≠ '#' ∧ c ≠ '\\')
    (hrest : Plain (q.next c) cs) : Plain q (c :: cs)

theorem plain_of_forall {q : Quoting} {cs : List Char}
    (h : ∀ front c back, cs = front ++ c :: back → front.foldl Quoting.next q = .bare →
      c ≠ '#' ∧ c ≠ '\\') : Plain q cs := by
  induction cs generalizing q with
  | nil => exact .nil q
  | cons c cs ih =>
      refine .cons (h [] c cs rfl) (ih fun front d back hcs hbare => ?_)
      exact h (c :: front) d back (by rw [hcs]; rfl) hbare

section

variable {q : Quoting} {mode : ShellWord.Mode} {c : Char}

theorem next_separator (h : ShellWord.isSeparator c = true) : Quoting.next .bare c = .bare := by
  simp only [ShellWord.isSeparator, Bool.or_eq_true, beq_iff_eq] at h
  rcases h with (rfl | rfl) | rfl <;> rfl

/-- A character keeps the two readers together. -/
theorem Agrees.advance (h : Agrees q mode) (hc : q = .bare → c ≠ '#' ∧ c ≠ '\\')
    (word : List Char) : Agrees (q.next c) (ShellWord.advance mode word c).1 := by
  have houtside : ∀ {m : ShellWord.Mode}, m = .gap ∨ m = .bare → c ≠ '#' → c ≠ '\\' →
      Agrees (Quoting.next .bare c) (ShellWord.advance m word c).1 := by
    intro m hm hmark hslash
    by_cases hseparator : ShellWord.isSeparator c = true
    · rw [next_separator hseparator]
      rcases hm with rfl | rfl <;> simp only [ShellWord.advance, if_pos hseparator] <;> exact .gap
    · by_cases hdouble : c = '"'
      · subst hdouble
        rcases hm with rfl | rfl <;> exact .double
      · by_cases hsingle : c = '\''
        · subst hsingle
          rcases hm with rfl | rfl <;> exact .single
        · rcases hm with rfl | rfl <;>
            simp only [Quoting.next, ShellWord.advance, if_neg hseparator, if_neg hmark,
              if_neg hdouble, if_neg hsingle, if_neg hslash] <;> exact .bare
  cases h with
  | gap => exact houtside (Or.inl rfl) (hc rfl).1 (hc rfl).2
  | bare => exact houtside (Or.inr rfl) (hc rfl).1 (hc rfl).2
  | single =>
      simp only [Quoting.next, ShellWord.advance]
      split
      · exact .bare
      · exact .single
  | double =>
      by_cases hdouble : c = '"'
      · subst hdouble
        exact .bare
      · by_cases hslash : c = '\\'
        · subst hslash
          exact .doubleEscape
        · simp only [Quoting.next, ShellWord.advance, if_neg hdouble, if_neg hslash]
          exact .double
  | doubleEscape =>
      simp only [Quoting.next, ShellWord.advance]
      split_ifs <;> exact .double

variable {cs : List Char}

/-- Behind any front of the text the two readers are together. -/
theorem Agrees.foldl (h : Agrees q mode) (hplain : Plain q cs) {front : List Char}
    (hfront : front <+: cs) : Agrees (front.foldl Quoting.next q) (modeFrom mode front) := by
  induction hplain generalizing mode front with
  | nil q =>
      obtain rfl := List.prefix_nil.1 hfront
      exact h
  | cons hc hrest ih =>
      cases front with
      | nil => exact h
      | cons d front =>
          obtain ⟨rfl, hbehind⟩ := List.cons_prefix_cons.1 hfront
          exact ih (h.advance hc []) hbehind

/-- The shell reader fails where the other one ends inside quotes. -/
theorem splitFrom_eq_none_iff (h : Agrees q mode) (hplain : Plain q cs) (word : List Char) :
    ShellWord.splitFrom mode word cs = none ↔ cs.foldl Quoting.next q ≠ .bare := by
  induction hplain generalizing mode word with
  | nil q => cases h <;> simp [ShellWord.splitFrom]
  | cons hc hrest ih =>
      have hnext := h.advance hc word
      rw [splitFrom_cons, List.foldl_cons]
      split
      · rename_i hends
        rw [hends.2] at hnext
        rw [Option.map_eq_none_iff]
        exact ih hnext []
      · exact ih hnext _

end

/-! ## Words and the runs that they are read from -/

/-- The words of a text as they are written: what the separators outside quotes leave. `run` is the
word that is being read, last character first. -/
def runs (q : Quoting) (run : List Char) : List Char → List (List Char)
  | [] => if run = [] then [] else [run.reverse]
  | c :: cs =>
    if q = .bare ∧ ShellWord.isSeparator c = true then
      if run = [] then runs .bare [] cs else run.reverse :: runs .bare [] cs
    else runs (q.next c) (c :: run) cs

/-- The two readers are in the same gap or in the same word. -/
structure Within (q : Quoting) (run : List Char) (mode : ShellWord.Mode) (word : List Char) :
    Prop where
  agrees : Agrees q mode
  place : run = [] ∧ mode = .gap ∧ word = [] ∨ run ≠ [] ∧ mode ≠ .gap
  read : ∀ cs, ShellWord.splitFrom .gap [] (run.reverse ++ cs) = ShellWord.splitFrom mode word cs

theorem within_gap : Within .bare [] .gap [] := ⟨.gap, .inl ⟨rfl, rfl, rfl⟩, fun _ => rfl⟩

section

variable {q : Quoting} {run word cs : List Char} {mode : ShellWord.Mode} {c : Char}

/-- The shell reader comes to a gap by a separator outside quotes. -/
theorem advance_eq_gap (h : Agrees q mode) (hc : q = .bare → c ≠ '#' ∧ c ≠ '\\') :
    (ShellWord.advance mode word c).1 = .gap ↔ q = .bare ∧ ShellWord.isSeparator c = true := by
  cases h with
  | gap | bare =>
      obtain ⟨hmark, hslash⟩ := hc rfl
      simp only [ShellWord.advance]
      split_ifs <;> simp_all
  | single | double | doubleEscape =>
      simp only [ShellWord.advance]
      split_ifs <;> simp

/-- A character that does not end a word belongs to it. -/
theorem Within.push (h : Within q run mode word) (hc : q = .bare → c ≠ '#' ∧ c ≠ '\\')
    (hinside : ¬(q = .bare ∧ ShellWord.isSeparator c = true)) :
    Within (q.next c) (c :: run) (ShellWord.advance mode word c).1
      (ShellWord.advance mode word c).2 where
  agrees := h.agrees.advance hc word
  place := .inr ⟨List.cons_ne_nil c run, fun hgap => hinside ((advance_eq_gap h.agrees hc).1 hgap)⟩
  read cs := by
    have hstep : ¬(mode = .bare ∧ (ShellWord.advance mode word c).1 = .gap) :=
      fun hends => hinside ((advance_eq_gap h.agrees hc).1 hends.2)
    rw [List.reverse_cons, List.append_assoc, List.singleton_append, h.read, splitFrom_cons,
      if_neg hstep]

/-- A word that ends here is read from its run. -/
theorem Within.finished (h : Within .bare run .bare word) :
    ShellWord.splitFrom .gap [] run.reverse = some [word.reverse] := by
  have hread := h.read []
  rwa [List.append_nil] at hread

/-- Each word is read from a run of its own. -/
theorem words_of_runs (h : Within q run mode word) (hplain : Plain q cs) {words : List (List Char)}
    (hwords : ShellWord.splitFrom mode word cs = some words) :
    List.Forall₂ (fun run word => ShellWord.splitFrom .gap [] run = some [word])
      (runs q run cs) words := by
  induction hplain generalizing mode run word words with
  | nil q =>
      rw [runs]
      rcases h.place with ⟨rfl, rfl, rfl⟩ | ⟨hrun, hmode⟩
      · obtain rfl := Option.some.inj hwords
        exact .nil
      · cases h.agrees with
        | gap => exact absurd rfl hmode
        | bare =>
            obtain rfl := Option.some.inj hwords
            rw [if_neg hrun]
            exact .cons h.finished .nil
        | _ => cases hwords
  | @cons q c cs hc hrest ih =>
      rw [runs]
      by_cases hends : q = .bare ∧ ShellWord.isSeparator c = true
      · rw [if_pos hends]
        obtain ⟨rfl, hseparator⟩ := hends
        rw [next_separator hseparator] at ih
        rw [splitFrom_cons] at hwords
        rcases h.place with ⟨rfl, rfl, rfl⟩ | ⟨hrun, hmode⟩
        · have hstay : ShellWord.advance .gap [] c = (.gap, []) := by
            simp only [ShellWord.advance, if_pos hseparator]
          rw [hstay] at hwords
          exact ih within_gap hwords
        · cases h.agrees with
          | gap => exact absurd rfl hmode
          | bare =>
              have hword : ShellWord.advance .bare word c = (.gap, word) := by
                simp only [ShellWord.advance, if_pos hseparator]
              rw [hword, if_pos ⟨rfl, rfl⟩] at hwords
              obtain ⟨rest, hrest, rfl⟩ := Option.map_eq_some_iff.1 hwords
              rw [if_neg hrun]
              exact .cons h.finished (ih within_gap hrest)
      · rw [if_neg hends]
        have hpush := h.push hc hends
        have hsame := hpush.read cs
        rw [List.reverse_cons, List.append_assoc, List.singleton_append, h.read] at hsame
        exact ih hpush (hsame.symm.trans hwords)

end

/-! ## Quotes that are open at the end of a line -/

/-- The reader of a line comes to its end, and not to a comment, inside quotes. -/
def OpenAtEnd (row : List Char) : Prop := (∀ column, ¬StandsBare row column '#') ∧ ¬Unquoted row

theorem foldl_next_blanks {cs : List Char} (hblank : ∀ c ∈ cs, Text.isBlank c = true)
    (q : Quoting) : cs.foldl Quoting.next q = .bare ↔ q = .bare := by
  induction cs generalizing q with
  | nil => rfl
  | cons c cs ih =>
      have hc := hblank c List.mem_cons_self
      have hdouble : c ≠ '"' := by rintro rfl; exact absurd hc (by decide)
      have hsingle : c ≠ '\'' := by rintro rfl; exact absurd hc (by decide)
      have hnext : q.next c = .bare ↔ q = .bare := by
        cases q with
        | bare => simp [Quoting.next, hdouble, hsingle]
        | single => simp [Quoting.next, hsingle]
        | double =>
            simp only [Quoting.next, if_neg hdouble]
            split <;> simp
        | doubleEscape => simp [Quoting.next]
      rw [List.foldl_cons, ih (fun d hd => hblank d (List.mem_cons_of_mem c hd)), hnext]

namespace Statement

/-- The pieces of a line start outside quotes, and in front of its comment. -/
structure IsCut (row : List Char) (piece : Nat × List Char) : Prop extends IsPiece row piece where
  start : Unquoted (row.take piece.1)
  unmarked : ∀ column < piece.1 + piece.2.length, ¬StandsBare row column '#'

section

variable {row front piece cs : List Char} {q : Quoting}

theorem Reading.isCut (h : Reading row front piece cs q) (hstart : Unquoted front)
    (hunmarked : ∀ column < front.length, ¬StandsBare row column '#') :
    IsCut row (front.length, piece.reverse) where
  toIsPiece := h.isPiece
  start := by rwa [h.whole, List.take_left]
  unmarked column hto := by
    rw [List.length_reverse] at hto
    by_cases hfront : column < front.length
    · exact hunmarked column hfront
    · exact (h.clean column (Nat.le_of_not_lt hfront) hto).2

theorem isCut_of_mem_pieces (h : Reading row front piece cs q) (hstart : Unquoted front)
    (hunmarked : ∀ column < front.length, ¬StandsBare row column '#') :
    ∀ p ∈ pieces q front.length piece cs, IsCut row p := by
  induction cs generalizing front piece q with
  | nil =>
      intro p hp
      obtain rfl := List.mem_singleton.1 hp
      exact h.isCut hstart hunmarked
  | cons c cs ih =>
      intro p hp
      rw [pieces_cons] at hp
      by_cases hmark : q = .bare ∧ c = '#'
      · rw [if_pos hmark] at hp
        obtain rfl := List.mem_singleton.1 hp
        exact h.isCut hstart hunmarked
      · rw [if_neg hmark] at hp
        by_cases hseparator : q = .bare ∧ c = ';'
        · rw [if_pos hseparator, ← Reading.length_cut] at hp
          obtain ⟨rfl, rfl⟩ := hseparator
          rcases List.mem_cons.1 hp with rfl | hp
          · exact h.isCut hstart hunmarked
          · refine ih h.cut ?_ (fun column hto => ?_) p hp
            · exact .plain (quotingOf_eq_bare_iff.1 h.quoting) (by decide) (by decide)
            · rw [Reading.length_cut] at hto
              by_cases hhere : column = front.length + piece.length
              · rintro ⟨hthere, -⟩
                rw [hhere, h.there.1] at hthere
                cases hthere
              · have hbefore := (h.isCut hstart hunmarked).unmarked column
                rw [List.length_reverse] at hbefore
                exact hbefore (by omega)
        · rw [if_neg hseparator] at hp
          exact ih (h.push hmark hseparator) hstart hunmarked p hp

/-- Behind the last piece stands the comment or the end of the line, and behind each other piece a
separator. -/
theorem pieces_ends (h : Reading row front piece cs q) :
    ∃ before last, pieces q front.length piece cs = before ++ [last] ∧
      (∀ p ∈ before, StandsBare row (p.1 + p.2.length) ';') ∧
      (StandsBare row (last.1 + last.2.length) '#' ∨ last.1 + last.2.length = row.length) := by
  induction cs generalizing front piece q with
  | nil =>
      refine ⟨[], _, rfl, nofun, .inr ?_⟩
      rw [h.whole]
      simp
  | cons c cs ih =>
      rw [pieces_cons]
      by_cases hmark : q = .bare ∧ c = '#'
      · rw [if_pos hmark]
        obtain ⟨rfl, rfl⟩ := hmark
        refine ⟨[], _, rfl, nofun, .inl ?_⟩
        rw [List.length_reverse]
        exact h.standsBare
      · rw [if_neg hmark]
        by_cases hseparator : q = .bare ∧ c = ';'
        · rw [if_pos hseparator, ← Reading.length_cut]
          obtain ⟨rfl, rfl⟩ := hseparator
          obtain ⟨before, last, hpieces, hbefore, hlast⟩ := ih h.cut
          refine ⟨_ :: before, last, congrArg _ hpieces, fun p hp => ?_, hlast⟩
          rcases List.mem_cons.1 hp with rfl | hp
          · rw [List.length_reverse]
            exact h.standsBare
          · exact hbefore p hp
        · rw [if_neg hseparator]
          exact ih (h.push hmark hseparator)

end

/-- Where the reader of the line stands behind a piece. -/
theorem IsCut.quotingOf {row : List Char} {p : Nat × List Char} (h : IsCut row p) :
    quotingOf (row.take (p.1 + p.2.length)) = p.2.foldl Quoting.next .bare := by
  rw [List.take_add, h.run, Source.quotingOf, List.foldl_append, ← Source.quotingOf,
    quotingOf_unquoted h.start]

/-- A piece ends inside quotes if they are open at the end of the line, and it makes the last
statement. -/
theorem open_iff {line : Nat} {row : List Char} {p : Nat × List Char} {s : Statement}
    (hp : p ∈ pieces .bare 0 [] row) (hs : ofPiece? line p = some s) :
    p.2.foldl Quoting.next .bare ≠ .bare ↔
      OpenAtEnd row ∧ ∀ t ∈ ofLine line row, t = s ∨ t.location.column < s.location.column := by
  have hcuts : ∀ p ∈ pieces .bare 0 [] row, IsCut row p :=
    isCut_of_mem_pieces (reading_start row) .nil fun _ hlt => absurd hlt (Nat.not_lt_zero _)
  obtain ⟨before, last, hpieces, hbefore, hlast⟩ := pieces_ends (reading_start row)
  have hordered := (pieces_ordered .bare 0 [] row).1
  change pieces .bare 0 [] row = _ at hpieces
  rw [hpieces] at hp hcuts hordered
  have hcut := hcuts p hp
  have hlastCut := hcuts last (List.mem_append_right before List.mem_cons_self)
  have hapart : ∀ p ∈ before, p.1 + p.2.length < last.1 :=
    fun p hp => (List.pairwise_append.1 hordered).2.2 p hp last List.mem_cons_self
  have hclosed : ∀ {p : Nat × List Char} {c : Char}, IsCut row p →
      StandsBare row (p.1 + p.2.length) c → p.2.foldl Quoting.next .bare = .bare := by
    intro p c hcut hbare
    rw [← hcut.quotingOf]
    exact quotingOf_unquoted hbare.unquoted
  have hmem : p ∈ before ∨ p = last := by
    simpa using hp
  constructor
  · intro hopen
    rcases hmem with hp | rfl
    · exact absurd (hclosed hcut (hbefore p hp)) hopen
    rcases hlast with hmark | hend
    · exact absurd (hclosed hcut hmark) hopen
    refine ⟨⟨fun column hmark => ?_, fun hrow => ?_⟩, fun t ht => ?_⟩
    · have hlt := (List.getElem?_eq_some_iff.1 hmark.there).1
      exact hcut.unmarked column (hend ▸ hlt) hmark
    · rw [← hcut.quotingOf, hend, List.take_length] at hopen
      exact hopen (quotingOf_unquoted hrow)
    · obtain ⟨p', hp', ht⟩ := List.mem_filterMap.1 ht
      rw [hpieces] at hp'
      rcases List.mem_append.1 hp' with hp' | hp'
      · have hbetween := hapart p' hp'
        have hleft := (ofPiece?_column ht).2.2
        have hright := (ofPiece?_column hs).2.1
        exact .inr (by omega)
      · obtain rfl := List.mem_singleton.1 hp'
        exact .inl (Option.some.inj (ht.symm.trans hs))
  · rintro ⟨⟨hunmarked, hopen⟩, hothers⟩ hbare
    rcases hlast with hmark | hend
    · exact hunmarked _ hmark
    have hlastOpen : last.2.foldl Quoting.next .bare ≠ .bare := by
      rw [← hlastCut.quotingOf, hend, List.take_length]
      exact fun hrow => hopen (quotingOf_eq_bare_iff.1 hrow)
    rcases hmem with hp | rfl
    · cases ht : ofPiece? line last with
      | none => exact hlastOpen ((foldl_next_blanks (isBlank_of_ofPiece?_none ht) .bare).2 rfl)
      | some t =>
          have htl : t ∈ ofLine line row := by
            refine List.mem_filterMap.2 ⟨last, ?_, ht⟩
            rw [hpieces]
            exact List.mem_append_right before List.mem_cons_self
          have hbetween := hapart p hp
          have hleft := (ofPiece?_column hs).2.2
          have hright := (ofPiece?_column ht).2.1
          rcases hothers t htl with rfl | hcolumn
          · omega
          · omega
    · exact hlastOpen hbare

end Statement

/-! ## Calls -/

theorem checkName_error {line : Nat} {name : String} {e : Fault}
    (h : checkName line name = .error e) : e = .invalidName line name := by
  unfold checkName at h
  split at h
  · cases h
  · exact (Except.error.inj h).symm

theorem Operand.parse_error {line : Nat} {text : String} {e : Fault}
    (h : Operand.parse line text = .error e) : e = .invalidOperand line (Text.trim text) := by
  simp only [Operand.parse] at h
  split at h
  · cases h
  · split at h
    · cases h
    · exact (Except.error.inj h).symm

section

variable {α : Type} {read : String → Except Fault α} {texts : List String}

theorem readAll_error {e : Fault} (h : readAll read texts = .error e) :
    ∃ text ∈ texts, read text = .error e := by
  induction texts with
  | nil => cases h
  | cons text rest ih =>
      rw [readAll] at h
      cases hread : read text with
      | error e' =>
          rw [hread] at h
          obtain rfl := Except.error.inj h
          exact ⟨text, List.mem_cons_self, hread⟩
      | ok a =>
          cases hrest : readAll read rest with
          | ok more =>
              rw [hread, hrest] at h
              cases h
          | error e' =>
              rw [hread, hrest] at h
              obtain rfl := Except.error.inj h
              obtain ⟨other, hother, hfault⟩ := ih hrest
              exact ⟨other, List.mem_cons_of_mem text hother, hfault⟩

theorem length_readAll {all : List α} (h : readAll read texts = .ok all) :
    all.length = texts.length := by
  induction texts generalizing all with
  | nil =>
      obtain rfl := Except.ok.inj h
      rfl
  | cons text rest ih =>
      rw [readAll] at h
      cases hread : read text with
      | error e =>
          rw [hread] at h
          cases h
      | ok a =>
          cases hrest : readAll read rest with
          | error e =>
              rw [hread, hrest] at h
              cases h
          | ok more =>
              rw [hread, hrest] at h
              obtain rfl := Except.ok.inj h
              rw [List.length_cons, List.length_cons, ih hrest]

end

namespace Command

/-- Unbalanced quotes are reported where the shell reader fails, and nowhere else. -/
theorem parseCall_unbalanced_iff (line : Nat) (rest : List Char) :
    parseCall line rest = .error (.unbalancedQuotes line) ↔
      ShellWord.split? (String.ofList rest) = none := by
  unfold parseCall
  cases hwords : ShellWord.split? (String.ofList rest) with
  | none => exact ⟨fun _ => rfl, fun _ => rfl⟩
  | some words =>
      refine ⟨fun h => ?_, nofun⟩
      simp only at h
      cases hname : checkName line (words.head?.getD "") with
      | error e =>
          obtain rfl := checkName_error hname
          rw [hname] at h
          cases h
      | ok name =>
          cases hargs : readAll (Operand.parse line) words.tail with
          | error e =>
              obtain ⟨text, -, hfault⟩ := readAll_error hargs
              obtain rfl := Operand.parse_error hfault
              rw [hname, hargs] at h
              cases h
          | ok args =>
              rw [hname, hargs] at h
              cases h

/-- A call has a word for its name and one for each argument. -/
theorem exists_words {line : Nat} {rest : List Char} {name : String} {args : List Operand}
    (h : parseCall line rest = .ok (name, args)) :
    ∃ words, ShellWord.split? (String.ofList rest) = some words ∧ words.length = args.length + 1 := by
  unfold parseCall at h
  cases hwords : ShellWord.split? (String.ofList rest) with
  | none =>
      rw [hwords] at h
      cases h
  | some words =>
      refine ⟨words, rfl, ?_⟩
      rw [hwords] at h
      simp only at h
      cases hname : checkName line (words.head?.getD "") with
      | error e =>
          rw [hname] at h
          cases h
      | ok name =>
          cases hargs : readAll (Operand.parse line) words.tail with
          | error e =>
              rw [hname, hargs] at h
              cases h
          | ok all =>
              rw [hname, hargs] at h
              obtain rfl : all = args := congrArg Prod.snd (Except.ok.inj h)
              have hlength := length_readAll hargs
              cases words with
              | nil => cases hname
              | cons word words => rw [hlength, List.length_cons, List.tail_cons]

/-- A statement is its keyword and what follows it, with blanks between them. -/
theorem cutKeyword_split {text keyword : String} {rest : List Char}
    (h : cutKeyword text = (keyword, rest)) :
    ∃ gap behind, text.toList = keyword.toList ++ (gap ++ (rest ++ behind)) ∧
      (∀ c ∈ gap, Text.isBlank c = true) ∧ ∀ c ∈ behind, Text.isBlank c = true := by
  unfold cutKeyword Text.cutAt? at h
  have hsplit := List.takeWhile_append_dropWhile (p := fun c => !Text.isBlank c) (l := text.toList)
  cases hdrop : text.toList.dropWhile fun c => !Text.isBlank c with
  | nil =>
      rw [hdrop] at h
      obtain ⟨rfl, rfl⟩ := Prod.mk.inj h
      exact ⟨[], [], by simp, nofun, nofun⟩
  | cons d cs =>
      rw [hdrop] at h hsplit
      obtain ⟨rfl, rfl⟩ := Prod.mk.inj h
      obtain ⟨behind, hrest, hbehind⟩ := Text.exists_trimmed cs
      have hd : Text.isBlank d = true := by
        have hhead := List.head?_dropWhile_not (fun c => !Text.isBlank c) text.toList
        rw [hdrop] at hhead
        simpa using hhead
      refine ⟨d :: cs.takeWhile Text.isBlank, behind, ?_, fun c hc => ?_, hbehind⟩
      · rw [String.toList_ofList, List.cons_append, ← hrest, hsplit]
      · rcases List.mem_cons.1 hc with rfl | hc
        · exact hd
        · exact List.all_eq_true.1 List.all_takeWhile c hc

/-- What a call or a deferral says is what stands behind its keyword. -/
theorem ofStatement_of_call {s : Statement} {keyword : String} {rest : List Char}
    (hcut : cutKeyword s.text = (keyword, rest)) (hkeyword : keyword = "call" ∨ keyword = "defer") :
    ∃ say : String → List Operand → Command,
      (say = .call ∨ say = .defer) ∧
      ofStatement s = (parseCall s.location.line rest).map fun (name, args) => say name args := by
  rcases hkeyword with rfl | rfl
  · refine ⟨.call, .inl rfl, ?_⟩
    simp only [ofStatement, hcut]
    cases parseCall s.location.line rest <;> rfl
  · refine ⟨.defer, .inr rfl, ?_⟩
    simp only [ofStatement, hcut]
    cases parseCall s.location.line rest <;> rfl

end Command

namespace Statement

variable {row : List Char}

/-- A character of a piece stands outside quotes where the piece is outside quotes in front of it. -/
theorem IsCut.standsBare {p : Nat × List Char} (h : IsCut row p) {front back : List Char} {c : Char}
    (hsplit : p.2 = front ++ c :: back) (hbare : front.foldl Quoting.next .bare = .bare) :
    StandsBare row (p.1 + front.length) c where
  there := by
    have hspans : Spans p (p.1 + front.length) := by
      refine ⟨Nat.le_add_right _ _, ?_⟩
      rw [hsplit]
      simp
    have hthere := h.getElem? hspans
    rw [Nat.add_sub_cancel_left, hsplit, List.getElem?_append_right (Nat.le_refl _),
      Nat.sub_self] at hthere
    exact hthere.symm
  unquoted := by
    have hfront : (row.drop p.1).take front.length = front := by
      have hrun := congrArg (List.take front.length) h.run
      rwa [List.take_take, hsplit, List.take_left,
        Nat.min_eq_left (by rw [List.length_append]; omega)] at hrun
    refine quotingOf_eq_bare_iff.1 ?_
    rw [List.take_add, hfront, Source.quotingOf, List.foldl_append, ← Source.quotingOf,
      quotingOf_unquoted h.start]
    exact hbare

/-- In a piece outside quotes there is neither a comment nor, on a line without them, a
backslash. -/
theorem IsCut.plain {p : Nat × List Char} (h : IsCut row p) {front text back : List Char}
    (hslash : ∀ column, StandsBare row column '\\' → InComment row column)
    (hsplit : p.2 = front ++ (text ++ back)) (hbare : front.foldl Quoting.next .bare = .bare) :
    Plain .bare text := by
  refine plain_of_forall fun before c behind htext hbefore => ?_
  have hcut : p.2 = (front ++ before) ++ c :: (behind ++ back) := by
    rw [hsplit, htext]
    simp
  have hstands : StandsBare row (p.1 + (front ++ before).length) c := by
    refine h.standsBare hcut ?_
    rw [List.foldl_append, hbare, hbefore]
  have hinside : p.1 + (front ++ before).length < p.1 + p.2.length := by
    rw [hsplit, htext]
    simp
  refine ⟨?_, ?_⟩
  · rintro rfl
    exact h.unmarked _ hinside hstands
  · rintro rfl
    obtain ⟨mark, hmark, hcomment⟩ := hslash _ hstands
    exact h.unmarked mark (by omega) hcomment

/-- Where the text behind a keyword without quotes stands in its piece. -/
theorem Trims.behind_keyword {line : Nat} {p : Nat × List Char} {s : Statement}
    (h : Trims line p s) {keyword : String} {rest : List Char}
    (hcut : Command.cutKeyword s.text = (keyword, rest))
    (hkeyword : keyword.toList.foldl Quoting.next .bare = .bare) :
    ∃ front back, p.2 = front ++ (rest ++ back) ∧ front.foldl Quoting.next .bare = .bare ∧
      ∀ c ∈ back, Text.isBlank c = true := by
  obtain ⟨before, behind, hpiece, -, hbefore, hbehind⟩ := h.split
  obtain ⟨gap, after, htext, hgap, hafter⟩ := Command.cutKeyword_split hcut
  refine ⟨before ++ (keyword.toList ++ gap), after ++ behind, ?_, ?_, fun c hc => ?_⟩
  · rw [hpiece, htext]
    simp
  · rw [List.foldl_append, (foldl_next_blanks hbefore .bare).2 rfl, List.foldl_append, hkeyword]
    exact (foldl_next_blanks hgap .bare).2 rfl
  · exact (List.mem_append.1 hc).elim (hafter c) (hbehind c)

/-- The statements of a text that are on a line. -/
theorem mem_ofLine_iff {source : String} {line : Nat} {s : Statement}
    (hrow : rowAt? (Text.lines source) line = some row) :
    s ∈ ofLine line row ↔ s ∈ split source ∧ s.location.line = line := by
  constructor
  · intro hs
    refine ⟨?_, (ofLine_ordered line row).2 s hs⟩
    cases line with
    | zero => cases hrow
    | succ k => exact mem_ofLines_iff.2 ⟨k, row, hrow, by rwa [Nat.add_comm]⟩
  · rintro ⟨hs, rfl⟩
    obtain ⟨row', hrow', hline⟩ := rowAt?_of_mem_ofLines hs
    rwa [← Option.some.inj (hrow'.symm.trans hrow)]

end Statement

/-- What the shell reader makes of the text behind the keyword of a statement. -/
structure QuotesAgree (source : String) (row : List Char) (s : Statement) (rest : List Char) :
    Prop where
  /-- It fails exactly if quotes are open at the end of the line, and the statement is the last one
  there. -/
  unbalanced : ShellWord.split? (String.ofList rest) = none ↔
    OpenAtEnd row ∧ ∀ t ∈ Statement.split source, t.location.line = s.location.line →
      t = s ∨ t.location.column < s.location.column
  /-- Unbalanced quotes are reported exactly if it fails. -/
  reported : Command.ofStatement s = .error (.unbalancedQuotes s.location.line) ↔
    ShellWord.split? (String.ofList rest) = none
  /-- It never is in a comment. -/
  uncommented : ∀ front, front <+: rest → modeFrom .gap front ≠ .comment
  /-- It makes one word of each run of the text. -/
  words : ∀ words, ShellWord.split? (String.ofList rest) = some words →
    List.Forall₂ (fun run word => ShellWord.split? (String.ofList run) = some [word])
      (runs .bare [] rest) words
  /-- The first run is the name of the function, and each other run is an argument. -/
  kept : ∀ name args, Command.ofStatement s = .ok (.call name args) ∨
      Command.ofStatement s = .ok (.defer name args) →
    (runs .bare [] rest).length = args.length + 1

/-- On a line without a backslash outside quotes, the shell reader of a call or a deferral is inside
the same quotes as the reader of the line, so that no argument is lost in a comment, and quotes are
reported as unbalanced where they reach the end of the line. -/
theorem call_quotes_agree {source : String} {row : List Char} {s : Statement} {keyword : String}
    {rest : List Char} (hs : s ∈ Statement.split source)
    (hrow : Statement.rowAt? (Text.lines source) s.location.line = some row)
    (hslash : ∀ column, StandsBare row column '\\' → InComment row column)
    (hcut : Command.cutKeyword s.text = (keyword, rest))
    (hkeyword : keyword = "call" ∨ keyword = "defer") : QuotesAgree source row s rest := by
  obtain ⟨p, hp, hpiece⟩ := List.mem_filterMap.1 ((Statement.mem_ofLine_iff hrow).2 ⟨hs, rfl⟩)
  have hpieceCut : Statement.IsCut row p :=
    Statement.isCut_of_mem_pieces (Statement.reading_start row) .nil
      (fun _ hlt => absurd hlt (Nat.not_lt_zero _)) p hp
  have hbare : keyword.toList.foldl Quoting.next .bare = .bare := by
    rcases hkeyword with rfl | rfl <;> rfl
  obtain ⟨front, back, hsplit, hfront, hback⟩ :=
    (Statement.trims_of_ofPiece? hpiece).behind_keyword hcut hbare
  have hplain : Plain .bare rest := hpieceCut.plain hslash hsplit hfront
  have hclosed : p.2.foldl Quoting.next .bare = .bare ↔ rest.foldl Quoting.next .bare = .bare := by
    rw [hsplit, List.foldl_append, hfront, List.foldl_append]
    exact foldl_next_blanks hback _
  obtain ⟨say, hsay, hstatement⟩ := Command.ofStatement_of_call hcut hkeyword
  have hwords : ∀ words, ShellWord.split? (String.ofList rest) = some words →
      List.Forall₂ (fun run word => ShellWord.split? (String.ofList run) = some [word])
        (runs .bare [] rest) words := by
    intro words hwords
    rw [ShellWord.split?, String.toList_ofList] at hwords
    obtain ⟨all, hall, rfl⟩ := Option.map_eq_some_iff.1 hwords
    refine List.forall₂_map_right_iff.2 ((words_of_runs within_gap hplain hall).imp ?_)
    intro run word hrun
    rw [ShellWord.split?, String.toList_ofList, hrun]
    rfl
  refine ⟨?_, ?_, ?_, hwords, ?_⟩
  · have hopen := Statement.open_iff hp hpiece
    rw [ShellWord.split?, String.toList_ofList, Option.map_eq_none_iff,
      splitFrom_eq_none_iff .gap hplain]
    refine (not_congr hclosed).symm.trans (hopen.trans ?_)
    refine and_congr_right fun _ => forall_congr' fun t => ?_
    rw [Statement.mem_ofLine_iff hrow, and_imp]
  · rw [← Command.parseCall_unbalanced_iff s.location.line, hstatement]
    cases Command.parseCall s.location.line rest with
    | error e => exact ⟨fun h => congrArg Except.error (Except.error.inj h), congrArg _⟩
    | ok parsed => exact ⟨nofun, nofun⟩
  · intro front hfront
    exact (Agrees.gap.foldl hplain hfront).not_comment
  · intro name args hread
    rw [hstatement] at hread
    cases hparsed : Command.parseCall s.location.line rest with
    | error e =>
        rw [hparsed] at hread
        rcases hread with hread | hread <;> cases hread
    | ok parsed =>
        obtain ⟨name', args'⟩ := parsed
        rw [hparsed] at hread
        have hsame : args' = args := by
          rcases hsay with rfl | rfl <;> rcases hread with hread | hread <;>
            first | cases hread; rfl | cases hread
        obtain ⟨words, hsome, hlength⟩ := Command.exists_words hparsed
        rw [(hwords words hsome).length_eq, hlength, hsame]

/-- A line with both sorts of quotes, with separators, marks and an escape between them, and with
quotes that are open at its end. -/
private def openLine : String := "call f '#;' \"a\\\"b\"; defer g \"it's # open"

theorem call_quotes_agree_open :
    ∃ row s rest, s ∈ Statement.split openLine ∧
      Statement.rowAt? (Text.lines openLine) s.location.line = some row ∧
      (∀ column, StandsBare row column '\\' → InComment row column) ∧
      Command.cutKeyword s.text = ("defer", rest) ∧ QuotesAgree openLine row s rest ∧
      Command.ofStatement s = .error (.unbalancedQuotes 1) := by
  have hsplit : Statement.split openLine =
      [⟨"call f '#;' \"a\\\"b\"", ⟨1, 0⟩⟩, ⟨"defer g \"it's # open", ⟨1, 20⟩⟩] := by cbv
  have hrow : Statement.rowAt? (Text.lines openLine) 1 = some openLine.toList := by cbv
  have hquoted : ∀ column < openLine.toList.length,
      openLine.toList[column]? = some '\\' → quotingOf (openLine.toList.take column) ≠ .bare := by
    decide
  have hslash : ∀ column, StandsBare openLine.toList column '\\' →
      InComment openLine.toList column := by
    rintro column ⟨hthere, hunquoted⟩
    have hlt := (List.getElem?_eq_some_iff.1 hthere).1
    exact absurd (quotingOf_unquoted hunquoted) (hquoted column hlt hthere)
  have hmem : ⟨"defer g \"it's # open", ⟨1, 20⟩⟩ ∈ Statement.split openLine := by
    rw [hsplit]
    exact List.mem_cons_of_mem _ List.mem_cons_self
  have hcut : Command.cutKeyword "defer g \"it's # open" = ("defer", "g \"it's # open".toList) := by
    cbv
  have hagree := call_quotes_agree hmem hrow hslash hcut (.inr rfl)
  have hfails : ShellWord.split? (String.ofList "g \"it's # open".toList) = none := by cbv
  exact ⟨_, _, _, hmem, hrow, hslash, hcut, hagree, hagree.reported.2 hfails⟩

end ScriptDebugger.Source
