import Mathlib
import ScriptDebugger.Machine.Step
import ScriptDebugger.Proofs.Json.Tokens
import ScriptDebugger.Proofs.Text.Blanks
/-!
# Names and literals

An operand is read as a JSON literal if it is one, and as a name otherwise. A name has no character
that starts a string, an array or an object, and does not begin with a digit, so that the scanner
finds nothing but words and numbers in it. A name that is one word is a literal if the word is; in
any other name the scanner fails, or finds a second token, with which no document goes on.

## Main results

* `scanFrom?_word` — what the scanner finds in a name.
* `read?_name` — the names that are documents are `null`, `true` and `false`.
* `parse_name` — every other name is read as itself, and these three are read as literals.
-/

namespace ScriptDebugger.Source

open Json (Token)
open Json.Token (Reading)

/-! ## Characters of names -/

theorem exists_range_of_search {n : Nat} {ranges : List (Nat × Nat)}
    (h : Text.CharSet.search n ranges = true) : ∃ r ∈ ranges, r.1 ≤ n ∧ n ≤ r.2 := by
  induction ranges with
  | nil => cases h
  | cons r rest ih =>
      obtain ⟨low, high⟩ := r
      rw [Text.CharSet.search] at h
      split at h
      · obtain ⟨r, hr, hn⟩ := ih h
        exact ⟨r, List.mem_cons_of_mem _ hr, hn⟩
      · exact ⟨(low, high), List.mem_cons_self, of_decide_eq_true h, by omega⟩

/-- No blank is a letter or a numeral. -/
theorem continuesName_of_isBlank {c : Char} (h : Text.isBlank c = true) :
    continuesName c = false := by
  have hapart : ∀ r ∈ Text.blanks.ranges, ∀ k < r.2 + 1 - r.1,
      Text.CharSet.search (r.1 + k) Text.letters.ranges = false ∧
        Text.CharSet.search (r.1 + k) Text.numerals.ranges = false := by
    decide +kernel
  obtain ⟨r, hr, hlow, hhigh⟩ := exists_range_of_search h
  obtain ⟨hletter, hnumeral⟩ := hapart r hr (c.toNat - r.1) (by omega)
  rw [Nat.add_sub_cancel' hlow] at hletter hnumeral
  have hunderscore : c ≠ '_' := by rintro rfl; exact absurd h (by decide)
  have hdollar : c ≠ '$' := by rintro rfl; exact absurd h (by decide)
  simp [continuesName, Text.isLetterOrNumeral, Text.isLetter, Text.CharSet.contains, hletter,
    hnumeral, hunderscore, hdollar]

/-- A name goes on with what it may begin with. -/
theorem continuesName_of_startsName {c : Char} (h : startsName c = true) :
    continuesName c = true := by
  simp only [startsName, continuesName, Text.isLetterOrNumeral, Bool.or_eq_true] at h ⊢
  rcases h with (h | h) | h
  · exact .inl (.inl (.inl h))
  · exact .inl (.inr h)
  · exact .inr h

theorem not_isDigit_of_startsName {c : Char} (h : startsName c = true) : c.isDigit = false := by
  refine Bool.eq_false_iff.2 fun hdigit => ?_
  simp only [Char.isDigit, Bool.and_eq_true, decide_eq_true_eq] at hdigit
  obtain ⟨hlow, hhigh⟩ := hdigit
  have hlow : 48 ≤ c.toNat := hlow
  have hhigh : c.toNat ≤ 57 := hhigh
  have hletters : ∀ k < 10, Text.CharSet.search (48 + k) Text.letters.ranges = false := by
    decide +kernel
  have hletter := hletters (c.toNat - 48) (by omega)
  rw [Nat.add_sub_cancel' hlow] at hletter
  simp only [startsName, Text.isLetter, Text.CharSet.contains, hletter, Bool.false_or,
    Bool.or_eq_true, beq_iff_eq] at h
  rcases h with rfl | rfl
  · exact absurd hhigh (by decide)
  · exact absurd hlow (by decide)

/-- Whether a name goes on with all of some characters. -/
theorem continuesName_of_isName {name : String} (h : isName name = true) :
    ∀ c ∈ name.toList, continuesName c = true := by
  unfold isName at h
  cases hchars : name.toList with
  | nil => nofun
  | cons c cs =>
      rw [hchars, isNameChars, Bool.and_eq_true, List.all_eq_true] at h
      intro d hd
      rcases List.mem_cons.1 hd with rfl | hd
      · exact continuesName_of_startsName h.1
      · exact h.2 d hd

/-- Nothing is trimmed off a name. -/
theorem trim_name {name : String} (h : isName name = true) : Text.trim name = name := by
  have hsolid : ∀ c ∈ name.toList, Text.isBlank c = false := by
    intro c hc
    refine Bool.eq_false_iff.2 fun hblank => ?_
    cases (continuesName_of_isName h c hc).symm.trans (continuesName_of_isBlank hblank)
  cases hchars : name.toList with
  | nil =>
      rw [isName, hchars] at h
      cases h
  | cons c cs =>
      rw [hchars] at hsolid
      have hlast := List.dropLast_concat_getLast (List.cons_ne_nil c cs)
      have htrimmed : Text.trimmed name.toList = name.toList := by
        rw [hchars]
        exact Text.trimmed_eq_self (hsolid c List.mem_cons_self) (hsolid _ (List.getLast_mem _))
          ⟨_, hlast.symm⟩
      rw [Text.trim, htrimmed, String.ofList_toList]

/-! ## What the scanner finds in a name -/

variable {c : Char} {read cs : List Char} {tokens : List Token}

/-- Between two tokens, a character of a name begins a word or a number. -/
theorem start?_name {next : Reading} (hc : continuesName c = true)
    (h : Token.start? c = some (tokens, next)) :
    tokens = [] ∧ (c.isDigit = true ∧ next = .number [c] ∨ c.isLower = true ∧ next = .word [c]) := by
  have hother : ∀ d, continuesName d = false → c ≠ d := by
    rintro d hd rfl
    cases hc.symm.trans hd
  have hspace : Token.isSpace c = false := by
    simp [Token.isSpace, hother ' ' (by decide), hother '\t' (by decide), hother '\n' (by decide),
      hother '\r' (by decide)]
  unfold Token.start? at h
  simp only [hspace, hother '[' (by decide), hother ']' (by decide), hother '{' (by decide),
    hother '}' (by decide), hother ',' (by decide), hother ':' (by decide), hother '"' (by decide),
    hother '-' (by decide), Bool.false_eq_true, if_false, false_or] at h
  split_ifs at h with hdigit hlower
  · obtain ⟨rfl, rfl⟩ := Prod.mk.inj (Option.some.inj h)
    exact ⟨rfl, .inl ⟨hdigit, rfl⟩⟩
  · obtain ⟨rfl, rfl⟩ := Prod.mk.inj (Option.some.inj h)
    exact ⟨rfl, .inr ⟨hlower, rfl⟩⟩

/-- Where a word or a number is being read, a character goes on with it or a token is found. -/
theorem advance?_inv {reading next : Reading} {found : List Token}
    (hreading : reading = .word read ∨ reading = .number read)
    (h : Token.advance? reading c = some (found, next)) :
    found = [] ∧ (next = .word (c :: read) ∧ reading = .word read ∨
        next = .number (c :: read) ∧ reading = .number read) ∨
      ∃ token more, found = token :: more ∧ Token.start? c = some (more, next) ∧
        Token.finish? reading = some [token] := by
  have hends : ∀ token? : Option Token,
      (token?.bind fun token => (Token.start? c).bind fun started =>
        some (token :: started.1, started.2)) = some (found, next) →
      ∃ token more, found = token :: more ∧ Token.start? c = some (more, next) ∧
        token?.map ([·]) = some [token] := by
    intro token? hfound
    obtain ⟨token, rfl, hbehind⟩ := Option.bind_eq_some_iff.1 hfound
    obtain ⟨⟨more, next'⟩, hstart, heq⟩ := Option.bind_eq_some_iff.1 hbehind
    obtain ⟨rfl, rfl⟩ := Prod.mk.inj (Option.some.inj heq)
    exact ⟨token, more, rfl, hstart, rfl⟩
  rcases hreading with rfl | rfl
  · rw [Token.advance?] at h
    split at h
    · obtain ⟨rfl, rfl⟩ := Prod.mk.inj (Option.some.inj h)
      exact .inl ⟨rfl, .inl ⟨rfl, rfl⟩⟩
    · exact .inr (hends _ h)
  · rw [Token.advance?] at h
    split at h
    · obtain ⟨rfl, rfl⟩ := Prod.mk.inj (Option.some.inj h)
      exact .inl ⟨rfl, .inr ⟨rfl, rfl⟩⟩
    · exact .inr (hends _ h)

/-- What is being read ends in a token. -/
theorem scanFrom?_ne_nil {reading : Reading}
    (hreading : reading = .word read ∨ reading = .number read)
    (h : Token.scanFrom? reading cs = some tokens) : tokens ≠ [] := by
  induction cs generalizing reading read tokens with
  | nil =>
      rintro rfl
      rcases hreading with rfl | rfl
      · obtain ⟨token, -, hnil⟩ := Option.map_eq_some_iff.1 h
        cases hnil
      · obtain ⟨token, -, hnil⟩ := Option.map_eq_some_iff.1 h
        cases hnil
  | cons c cs ih =>
      obtain ⟨found, next, rest, hadvance, hscan, rfl⟩ := Token.scanFrom?_inv h
      rcases advance?_inv hreading hadvance with ⟨rfl, hnext⟩ | ⟨token, more, rfl, -⟩
      · exact ih (hnext.imp And.left And.left) hscan
      · exact List.cons_ne_nil _ _

/-- In a name that begins with a word, the scanner finds that word, alone or with something
behind it. -/
theorem scanFrom?_word (hcs : ∀ c ∈ cs, continuesName c = true)
    (h : Token.scanFrom? (.word read) cs = some tokens) :
    (∃ token, tokens = [token] ∧ Token.ofWord? (cs.reverse ++ read) = some token) ∨
      ∃ word token more rest, Token.ofWord? word = some token ∧ tokens = token :: more :: rest := by
  induction cs generalizing read tokens with
  | nil =>
      obtain ⟨token, htoken, rfl⟩ := Option.map_eq_some_iff.1 h
      exact .inl ⟨token, rfl, htoken⟩
  | cons c cs ih =>
      obtain ⟨found, next, rest, hadvance, hscan, rfl⟩ := Token.scanFrom?_inv h
      have hrest : ∀ c ∈ cs, continuesName c = true :=
        fun d hd => hcs d (List.mem_cons_of_mem c hd)
      rcases advance?_inv (.inl rfl) hadvance with ⟨rfl, hnext⟩ | ⟨token, more, rfl, hstart, hfinish⟩
      · obtain rfl : next = .word (c :: read) := by
          rcases hnext with ⟨hnext, -⟩ | ⟨-, hnumber⟩
          · exact hnext
          · cases hnumber
        have hword := ih hrest hscan
        rwa [List.reverse_cons, List.append_assoc]
      · obtain ⟨token', htoken, heq⟩ := Option.map_eq_some_iff.1 hfinish
        obtain rfl : token' = token := List.singleton_inj.1 heq
        obtain ⟨rfl, hnext⟩ := start?_name (hcs c List.mem_cons_self) hstart
        have hnext : next = .word [c] ∨ next = .number [c] :=
          hnext.symm.imp And.right And.right
        obtain ⟨more, rest, rfl⟩ := List.exists_cons_of_ne_nil (scanFrom?_ne_nil hnext hscan)
        exact .inr ⟨read, token', more, rest, htoken, rfl⟩

/-! ## Names that are documents -/

/-- The names that are literals, and what they are. -/
def literalNames : List (String × Json) :=
  [("null", .null), ("true", .bool true), ("false", .bool false)]

theorem ofWord?_inv {token : Token} (h : Token.ofWord? read = some token) :
    (String.ofList read.reverse, token) ∈
      [("null", .null), ("true", .bool true), ("false", .bool false)] := by
  unfold Token.ofWord? at h
  split at h
  case h_4 => cases h
  all_goals
    rename_i hread
    obtain rfl := Option.some.inj h
    rw [hread]
    decide

/-- Behind a word that is a document, nothing more can stand. -/
theorem ofTokens?_word {token more : Token} (h : Token.ofWord? read = some token)
    (others : List Token) : Json.ofTokens? (token :: more :: others) = none := by
  have hmem := ofWord?_inv h
  simp only [List.mem_cons, Prod.mk.injEq, List.not_mem_nil, or_false] at hmem
  rcases hmem with ⟨-, rfl⟩ | ⟨-, rfl⟩ | ⟨-, rfl⟩ <;> rfl

/-- A name that is a JSON document is one of three words. -/
theorem read?_name {name : String} {value : Json} (h : isName name = true)
    (hread : Json.read? name = some value) : (name, value) ∈ literalNames := by
  obtain ⟨written, hparse, rfl⟩ := Option.map_eq_some_iff.1 hread
  obtain ⟨tokens, hscan, htokens⟩ := Option.bind_eq_some_iff.1 hparse
  have hcontinues := continuesName_of_isName h
  cases hchars : name.toList with
  | nil =>
      rw [isName, hchars] at h
      cases h
  | cons c cs =>
      rw [isName, hchars, isNameChars, Bool.and_eq_true] at h
      rw [hchars] at hscan hcontinues
      obtain ⟨found, next, rest, hstart, hrest, rfl⟩ := Token.scanFrom?_inv hscan
      obtain ⟨rfl, ⟨hdigit, -⟩ | ⟨-, rfl⟩⟩ := start?_name (hcontinues c List.mem_cons_self) hstart
      · cases (not_isDigit_of_startsName h.1).symm.trans hdigit
      rcases scanFrom?_word (fun d hd => hcontinues d (List.mem_cons_of_mem c hd)) hrest with
        ⟨token, rfl, hword⟩ | ⟨word, token, more, others, hword, rfl⟩
      · have hmem := ofWord?_inv hword
        have hword : String.ofList (cs.reverse ++ [c]).reverse = name := by
          rw [List.reverse_append, List.reverse_reverse, List.reverse_singleton,
            List.singleton_append, ← hchars, String.ofList_toList]
        rw [hword] at hmem
        simp only [literalNames, List.mem_cons, Prod.mk.injEq, List.not_mem_nil, or_false] at hmem ⊢
        rcases hmem with ⟨rfl, rfl⟩ | ⟨rfl, rfl⟩ | ⟨rfl, rfl⟩ <;>
          obtain rfl := Option.some.inj htokens <;> simp [Json.canonical]
      · rw [List.nil_append, ofTokens?_word hword] at htokens
        cases htokens

/-! ## Operands -/

/-- Every text that may be declared is read as the name that it is, and stands for its binding,
unless it is the word of a literal. Such a word may be declared too, but it is read as the
literal. -/
theorem parse_name {declared : Nat} {name : String} (hname : checkName declared name = .ok name)
    (line : Nat) :
    (name ∉ literalNames.map Prod.fst →
      Operand.parse line name = .ok (.name name) ∧
      ∀ (heap : Machine.Heap) (top : Machine.Activation) (value : Value),
        top.binding? name = some value → value ≠ .uninitialized →
          Machine.State.evaluate heap top (.name name) = (heap, value)) ∧
      ∀ value, (name, value) ∈ literalNames → Operand.parse line name = .ok (.literal value) := by
  have hisName : isName name = true := by
    unfold checkName at hname
    split at hname
    · assumption
    · cases hname
  refine ⟨fun hother => ⟨?_, fun heap top value hbound hvalue => ?_⟩, fun value hvalue => ?_⟩
  · have hunread : Json.read? name = none := by
      refine Option.eq_none_iff_forall_ne_some.2 fun value hread => hother ?_
      exact List.mem_map_of_mem (read?_name hisName hread)
    simp only [Operand.parse, trim_name hisName, hunread, hisName, if_true]
  · rw [Machine.State.evaluate, Machine.State.read, hbound]
    cases value with
    | uninitialized => exact absurd rfl hvalue
    | _ => rfl
  · simp only [literalNames, List.mem_cons, Prod.mk.injEq, List.not_mem_nil, or_false] at hvalue
    rcases hvalue with ⟨rfl, rfl⟩ | ⟨rfl, rfl⟩ | ⟨rfl, rfl⟩ <;> rfl

theorem parse_name_beginning_with_a_literal :
    checkName 1 "true1" = .ok "true1" ∧ Operand.parse 2 "true1" = .ok (.name "true1") := by
  have hname : checkName 1 "true1" = .ok "true1" := by cbv
  exact ⟨hname, ((parse_name hname 2).1 (by decide)).1⟩

/-- Not every text that may be declared is read as a name. -/
theorem not_forall_parse_name :
    ¬∀ line name, checkName line name = .ok name → Operand.parse line name = .ok (.name name) := by
  intro hall
  have hparse : Operand.parse 1 "true" = .ok (.literal (.bool true)) := by cbv
  cases hparse.symm.trans (hall 1 "true" (by cbv))

end ScriptDebugger.Source
