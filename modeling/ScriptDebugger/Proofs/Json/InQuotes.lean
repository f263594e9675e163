import Mathlib.Data.List.Basic
import ScriptDebugger.Proofs.Json.ReadBack
/-!
# A string between quotes

A string that is put between quotes, without escapes, need not be the JSON text of that string. If
the text is a document at all, the document is a string. It is the string itself exactly if no
character of it needs an escape. Any other string is shorter: an escape is more characters than the
one that it stands for.

The scanner holds what it has read of a string. What carries the induction is that every character
it takes adds at most one to that, and that the backslash of an escape adds none.

## Main results

* `scanFrom?_string_lt` — a string that is being scanned has no room for more than is left.
* `read?_inQuotes_plain` — a string without escapes comes back.
* `read?_inQuotes` — what a string between quotes is read as, if it is read.
-/

namespace ScriptDebugger.Json

/-- A character that stands for itself in the text of a string. -/
def IsPlain (c : Char) : Prop := c ≠ '"' ∧ c ≠ '\\' ∧ 0x20 ≤ c.toNat

instance (c : Char) : Decidable (IsPlain c) := inferInstanceAs (Decidable (_ ∧ _ ∧ _))

namespace Token

/-! ## Scanning a string -/

/-- What was read of a string. -/
def Reading.inString? : Reading → Option (List Char)
  | .text read | .escape read | .unit read _ _ _ | .secondHalf read _ | .secondHalfEscape read _ =>
    some read
  | .gap | .word _ | .number _ => none

variable {reading next : Reading} {read cs : List Char} {c : Char} {found : List Token}

theorem escape?_inString (h : escape? read c = some next) :
    ∃ more, next.inString? = some more ∧ more.length ≤ read.length + 1 := by
  unfold escape? at h
  split at h
  case h_9 =>
    obtain rfl := Option.some.inj h
    exact ⟨read, rfl, Nat.le_succ _⟩
  case h_10 => cases h
  all_goals
    obtain rfl := Option.some.inj h
    exact ⟨_, rfl, Nat.le_refl _⟩

theorem unitDone?_inString {high : Option Nat} {value : Nat}
    (h : unitDone? read high value = some next) :
    ∃ more, next.inString? = some more ∧ more.length ≤ read.length + 1 := by
  unfold unitDone? at h
  repeat' split at h
  all_goals cases h
  · exact ⟨read, rfl, Nat.le_succ _⟩
  · exact ⟨_, rfl, Nat.le_refl _⟩
  · exact ⟨_, rfl, Nat.le_refl _⟩

/-- A character ends a string, or adds at most one character to it. -/
theorem advance?_inString (hread : reading.inString? = some read)
    (h : advance? reading c = some (found, next)) :
    found = [.string (String.ofList read.reverse)] ∨
      found = [] ∧ ∃ more, next.inString? = some more ∧ more.length ≤ read.length + 1 := by
  cases reading with
  | gap | word | number => cases hread
  | text =>
      obtain rfl := Option.some.inj hread
      rw [advance?] at h
      repeat' split at h
      all_goals cases h
      · exact .inl rfl
      · exact .inr ⟨rfl, _, rfl, Nat.le_succ _⟩
      · exact .inr ⟨rfl, _, rfl, Nat.le_refl _⟩
  | escape =>
      obtain rfl := Option.some.inj hread
      obtain ⟨after, hafter, heq⟩ := Option.map_eq_some_iff.1 h
      cases heq
      exact .inr ⟨rfl, escape?_inString hafter⟩
  | unit _ high value owed =>
      obtain rfl := Option.some.inj hread
      obtain ⟨digit, -, hrest⟩ := Option.bind_eq_some_iff.1 h
      simp only at hrest
      split at hrest
      · obtain ⟨after, hafter, heq⟩ := Option.map_eq_some_iff.1 hrest
        cases heq
        exact .inr ⟨rfl, unitDone?_inString hafter⟩
      · cases hrest
        exact .inr ⟨rfl, _, rfl, Nat.le_succ _⟩
  | secondHalf | secondHalfEscape =>
      obtain rfl := Option.some.inj hread
      rw [advance?] at h
      split at h
      · cases h
        exact .inr ⟨rfl, _, rfl, Nat.le_succ _⟩
      · cases h

/-- A string that is being scanned has no room for more characters than are left. -/
theorem scanFrom?_string_lt (hread : reading.inString? = some read)
    (h : scanFrom? reading cs = some found) :
    ∃ text rest, found = .string text :: rest ∧ text.length < read.length + cs.length := by
  induction cs generalizing reading read found with
  | nil =>
      cases reading with
      | gap | word | number => cases hread
      | _ => cases h
  | cons c cs ih =>
      obtain ⟨front, next, back, hadvance, hback, rfl⟩ := scanFrom?_inv h
      rcases advance?_inString hread hadvance with rfl | ⟨rfl, more, hmore, hlength⟩
      · refine ⟨_, back, rfl, ?_⟩
        rw [String.length_ofList, List.length_reverse, List.length_cons]
        omega
      · obtain ⟨text, rest, rfl, hless⟩ := ih hmore hback
        refine ⟨text, rest, rfl, ?_⟩
        rw [List.length_cons]
        omega

/-- A string that takes all the room was written as it is. -/
theorem scanFrom?_text_full {text : String} {rest : List Token}
    (h : scanFrom? (.text read) cs = some (.string text :: rest))
    (hfull : text.length + 1 = read.length + cs.length) :
    ∃ body, cs = body ++ ['"'] ∧ (∀ c ∈ body, IsPlain c) ∧
      text.toList = read.reverse ++ body := by
  induction cs generalizing read with
  | nil => cases h
  | cons c cs ih =>
      obtain ⟨front, next, back, hadvance, hback, hfound⟩ := scanFrom?_inv h
      rw [List.length_cons] at hfull
      by_cases hquote : c = '"'
      · subst hquote
        cases hadvance
        obtain ⟨htext, -⟩ := List.cons.inj hfound
        obtain rfl := Token.string.inj htext
        rw [String.length_ofList, List.length_reverse] at hfull
        obtain rfl : cs = [] := List.length_eq_zero_iff.1 (by omega)
        exact ⟨[], rfl, List.forall_mem_nil _, by simp⟩
      · by_cases hescape : c = '\\'
        · subst hescape
          cases hadvance
          have hread : (Reading.escape read).inString? = some read := rfl
          obtain ⟨other, others, rfl, hless⟩ := scanFrom?_string_lt hread hback
          obtain rfl := Token.string.inj (List.cons.inj hfound).1
          omega
        · rw [advance?, if_neg hquote, if_neg hescape] at hadvance
          split at hadvance
          · cases hadvance
          · rename_i hcontrol
            cases hadvance
            rw [List.nil_append] at hfound
            rw [← hfound] at hback
            obtain ⟨body, rfl, hbody, htext⟩ := ih hback (by rw [List.length_cons]; omega)
            have hc : IsPlain c := ⟨hquote, hescape, Nat.le_of_not_lt hcontrol⟩
            refine ⟨c :: body, rfl, List.forall_mem_cons.2 ⟨hc, hbody⟩, ?_⟩
            rw [htext, List.reverse_cons, List.append_assoc, List.singleton_append]

end Token

/-! ## Documents -/

theorem stringChar_of_isPlain {c : Char} (h : IsPlain c) : stringChar c = [c] := by
  obtain ⟨hquote, hescape, hcontrol⟩ := h
  have hother : ∀ d : Char, d.toNat < 0x20 → c ≠ d := by
    rintro d hd rfl
    omega
  rw [stringChar, if_neg hquote, if_neg hescape, if_neg (hother _ (by decide)),
    if_neg (hother _ (by decide)), if_neg (hother _ (by decide)), if_neg (hother _ (by decide)),
    if_neg (hother _ (by decide)), if_neg (Nat.not_lt_of_le hcontrol)]

/-- A string without escapes comes back. -/
theorem read?_inQuotes_plain {s : String} (h : ∀ c ∈ s.toList, IsPlain c) :
    read? ("\"" ++ s ++ "\"") = some (.string s) := by
  have hwords : (Json.string s).AllNumbers Number.FitsWord := trivial
  have hchars : s.toList.flatMap stringChar = s.toList := by
    rw [List.flatMap_congr fun c hc => stringChar_of_isPlain (h c hc), List.flatMap_singleton']
  have htext : "\"" ++ s ++ "\"" = (Json.string s).text := by
    refine String.toList_inj.1 ?_
    rw [text, String.toList_ofList, render, stringText, hchars, String.toList_append,
      String.toList_append]
    rfl
  rw [htext, read?, parse?_text_of_fitsWord hwords (Nat.zero_le _)]
  rfl

/-- A string between quotes is read as a string, if it is read: as itself, if it has no character
that needs an escape, and as a shorter one otherwise. -/
theorem read?_inQuotes {s : String} {j : Json} (h : read? ("\"" ++ s ++ "\"") = some j) :
    ∃ text, j = .string text ∧
      (text.length < s.length ∨ text = s ∧ ∀ c ∈ s.toList, IsPlain c) := by
  obtain ⟨written, hparse, rfl⟩ := Option.map_eq_some_iff.1 h
  obtain ⟨found, hscan, hdocument⟩ := Option.bind_eq_some_iff.1 hparse
  have hopen : Token.advance? .gap '"' = some ([], .text []) := rfl
  rw [Token.scan?, String.toList_append, String.toList_append] at hscan
  change Token.scanFrom? .gap ('"' :: (s.toList ++ ['"'])) = some found at hscan
  rw [Token.scanFrom?_cons hopen] at hscan
  have hread : (Token.Reading.text []).inString? = some [] := rfl
  obtain ⟨text, rest, rfl, hless⟩ := Token.scanFrom?_string_lt hread hscan
  rw [List.length_append, List.length_nil, String.length_toList, List.length_singleton] at hless
  obtain rfl : rest = [] := by
    cases rest with
    | nil => rfl
    | cons token rest => cases hdocument
  obtain rfl : .string text = written := Option.some.inj hdocument
  refine ⟨text, rfl, ?_⟩
  by_cases hfull : text.length = s.length
  · obtain ⟨body, hbody, hplain, htext⟩ := Token.scanFrom?_text_full hscan (by
      rw [List.length_append, List.length_nil, String.length_toList, List.length_singleton]
      omega)
    obtain rfl : s.toList = body := (List.append_inj' hbody rfl).1
    exact .inr ⟨String.toList_inj.1 htext, hplain⟩
  · exact .inl (by omega)

end ScriptDebugger.Json
