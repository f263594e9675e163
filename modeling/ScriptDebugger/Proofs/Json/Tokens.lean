import ScriptDebugger.Json.Printer
import ScriptDebugger.Json.Token
import ScriptDebugger.Proofs.Json.Numerals
/-!
# Scanning a written document

The text of a document is scanned to the tokens that the document is made of. Escapes are undone, so
a string comes back as it was. A number comes back as the number that its text reads as, which for a
double need not be the same one; `reread` puts these numbers into the document.

## Main results

* `scanFrom?_stringText` — a string is scanned to itself.
* `isNumeric_text` — the text of a number is scanned as one number.
* `scanFrom?_render` — the tokens of a written document, with anything behind it.
-/

namespace ScriptDebugger.Json

/-! ## What is left of a document that was written -/

/-- The number that the text of a number reads as. -/
def Number.reread (n : Number) : Option Number := read? n.text

mutual

/-- The document with each number as its text reads; `none` where one of them is unreadable. -/
def reread : Json → Option Json
  | .null => some .null
  | .bool b => some (.bool b)
  | .number n => n.reread.map .number
  | .string s => some (.string s)
  | .array items => (rereadItems items).map .array
  | .object members => (rereadMembers members).map .object

/-- The items of an array, each as it reads. -/
def rereadItems : List Json → Option (List Json)
  | [] => some []
  | j :: rest => (reread j).bind fun j => (rereadItems rest).map (j :: ·)

/-- The members of an object, each as it reads. -/
def rereadMembers : List (String × Json) → Option (List (String × Json))
  | [] => some []
  | (k, j) :: rest => (reread j).bind fun j => (rereadMembers rest).map ((k, j) :: ·)

end

mutual

/-- The tokens of a document. -/
def tokens : Json → List Token
  | .null => [.null]
  | .bool b => [.bool b]
  | .number n => [.number n]
  | .string s => [.string s]
  | .array items => .arrayStart :: tokensOfItems items ++ [.arrayEnd]
  | .object members => .objectStart :: tokensOfMembers members ++ [.objectEnd]

/-- The tokens of the items of an array, with commas between them. -/
def tokensOfItems : List Json → List Token
  | [] => []
  | [j] => tokens j
  | j :: rest => tokens j ++ .comma :: tokensOfItems rest

/-- The tokens of the members of an object, with commas between them. -/
def tokensOfMembers : List (String × Json) → List Token
  | [] => []
  | [(k, j)] => .string k :: .colon :: tokens j
  | (k, j) :: rest => .string k :: .colon :: tokens j ++ .comma :: tokensOfMembers rest

end

theorem renderItems_singleton (j : Json) : renderItems [j] = render j := rfl

theorem renderItems_cons (j k : Json) (items : List Json) :
    renderItems (j :: k :: items) = render j ++ ',' :: renderItems (k :: items) := rfl

theorem renderMembers_singleton (key : String) (j : Json) :
    renderMembers [(key, j)] = stringText key ++ ':' :: render j := rfl

theorem renderMembers_cons (key : String) (j : Json) (m : String × Json)
    (members : List (String × Json)) :
    renderMembers ((key, j) :: m :: members) =
      stringText key ++ ':' :: render j ++ ',' :: renderMembers (m :: members) := rfl

theorem tokensOfItems_cons (j k : Json) (items : List Json) :
    tokensOfItems (j :: k :: items) = tokens j ++ .comma :: tokensOfItems (k :: items) := rfl

theorem tokensOfMembers_cons (key : String) (j : Json) (m : String × Json)
    (members : List (String × Json)) :
    tokensOfMembers ((key, j) :: m :: members) =
      .string key :: .colon :: tokens j ++ .comma :: tokensOfMembers (m :: members) := rfl

namespace Token

/-! ## One character -/

theorem advance?_gap (c : Char) : advance? .gap c = start? c := rfl

theorem advance?_word (read : List Char) (c : Char) :
    advance? (.word read) c =
      if c.isLower then some ([], .word (c :: read))
      else (ofWord? read).bind fun token => (start? c).bind fun (tokens, next) =>
        some (token :: tokens, next) := rfl

theorem advance?_number (read : List Char) (c : Char) :
    advance? (.number read) c =
      if continuesNumber c then some ([], .number (c :: read))
      else (ofNumber? read).bind fun token => (start? c).bind fun (tokens, next) =>
        some (token :: tokens, next) := rfl

theorem advance?_text (read : List Char) (c : Char) :
    advance? (.text read) c =
      if c = '"' then some ([.string (String.ofList read.reverse)], .gap)
      else if c = '\\' then some ([], .escape read)
      else if c.toNat < 0x20 then none
      else some ([], .text (c :: read)) := rfl

theorem advance?_escape (read : List Char) (c : Char) :
    advance? (.escape read) c = (escape? read c).map fun next => ([], next) := rfl

/-- A character is read, and then the others. -/
theorem scanFrom?_step (reading : Reading) (c : Char) (cs : List Char) :
    scanFrom? reading (c :: cs) =
      (advance? reading c).bind fun (tokens, next) => (scanFrom? next cs).bind fun rest =>
        some (tokens ++ rest) := rfl

/-! ## Words and numbers -/

/-- Whether neither a word nor a number goes on with the characters. -/
def Ends (cs : List Char) : Prop :=
  ∀ c ∈ cs.head?, continuesNumber c = false ∧ c.isLower = false

theorem ends_cons {c : Char} (h : continuesNumber c = false ∧ c.isLower = false)
    (cs : List Char) : Ends (c :: cs) := by
  intro d hd
  obtain rfl := Option.some.inj hd
  exact h

/-- What comes behind tokens that were found already. -/
def followedBy (front : List Token) (rest : List Char) : Option (List Token) :=
  (scanFrom? .gap rest).map (front ++ ·)

theorem followedBy_append (front back : List Token) (rest : List Char) :
    (followedBy back rest).map (front ++ ·) = followedBy (front ++ back) rest := by
  rw [followedBy, followedBy, Option.map_map]
  congr 1
  funext more
  exact (List.append_assoc front back more).symm

/-- A character that changes nothing but what is being read. -/
theorem scanFrom?_cons {reading next : Reading} {c : Char}
    (h : advance? reading c = some ([], next)) (cs : List Char) :
    scanFrom? reading (c :: cs) = scanFrom? next cs := by
  rw [scanFrom?_step, h]
  show (scanFrom? next cs).bind (fun rest => some ([] ++ rest)) = _
  cases scanFrom? next cs <;> rfl

/-- What scanning on from a character comes to is what it completes, and what comes behind it. -/
theorem scanFrom?_inv {reading : Reading} {c : Char} {cs : List Char} {found : List Token}
    (h : scanFrom? reading (c :: cs) = some found) :
    ∃ front next back, advance? reading c = some (front, next) ∧ scanFrom? next cs = some back ∧
      found = front ++ back := by
  obtain ⟨⟨front, next⟩, hadvance, hrest⟩ := Option.bind_eq_some_iff.1 h
  obtain ⟨back, hback, heq⟩ := Option.bind_eq_some_iff.1 hrest
  exact ⟨front, next, back, hadvance, hback, (Option.some.inj heq).symm⟩

/-- A token of one character. -/
theorem scanFrom?_mark {c : Char} {token : Token} (h : start? c = some ([token], .gap))
    (cs : List Char) : scanFrom? .gap (c :: cs) = followedBy [token] cs := by
  rw [scanFrom?_step, advance?_gap, h]
  show (scanFrom? .gap cs).bind (fun rest => some ([token] ++ rest)) = _
  rw [followedBy]
  cases scanFrom? .gap cs <;> rfl

/-- A word or number is complete at the end, and at a character that does not continue it. -/
theorem scanFrom?_complete {reading : Reading} {token? : Option Token} {cs : List Char}
    (hfinish : finish? reading = token?.map ([·]))
    (hnext : ∀ c ∈ cs.head?, advance? reading c =
      token?.bind fun token => (start? c).map fun found => (token :: found.1, found.2)) :
    scanFrom? reading cs = token?.bind fun token => followedBy [token] cs := by
  cases cs with
  | nil =>
      rw [scanFrom?, hfinish]
      cases token? <;> rfl
  | cons c cs =>
      rw [scanFrom?_step, hnext c rfl]
      cases token? with
      | none => rfl
      | some token =>
          rw [Option.bind_some, Option.bind_some, followedBy, scanFrom?_step, advance?_gap]
          cases start? c with
          | none => rfl
          | some found =>
              show ((scanFrom? found.2 cs).bind fun rest => some (token :: found.1 ++ rest)) =
                ((scanFrom? found.2 cs).bind fun rest => some (found.1 ++ rest)).map ([token] ++ ·)
              cases scanFrom? found.2 cs <;> rfl

/-- A number ends where a character comes that cannot continue it. -/
theorem scanFrom?_number_end {read cs : List Char} (h : Ends cs) :
    scanFrom? (.number read) cs = (ofNumber? read).bind fun token => followedBy [token] cs := by
  refine scanFrom?_complete rfl fun c hc => ?_
  simp only [advance?_number, (h c hc).1, Bool.false_eq_true, if_false]
  cases ofNumber? read <;> cases start? c <;> rfl

/-- A word ends where a character comes that is no lower-case letter. -/
theorem scanFrom?_word_end {read cs : List Char} (h : Ends cs) :
    scanFrom? (.word read) cs = (ofWord? read).bind fun token => followedBy [token] cs := by
  refine scanFrom?_complete rfl fun c hc => ?_
  simp only [advance?_word, (h c hc).2, Bool.false_eq_true, if_false]
  cases ofWord? read <;> cases start? c <;> rfl

theorem scanFrom?_number {read cs rest : List Char}
    (hcs : ∀ c ∈ cs, continuesNumber c = true) :
    scanFrom? (.number read) (cs ++ rest) = scanFrom? (.number (cs.reverse ++ read)) rest := by
  induction cs generalizing read with
  | nil => rfl
  | cons c cs ih =>
      have hstep : advance? (.number read) c = some ([], .number (c :: read)) := by
        rw [advance?_number, if_pos (hcs c List.mem_cons_self)]
      rw [List.cons_append, scanFrom?_cons hstep, ih fun d hd => hcs d (List.mem_cons_of_mem c hd),
        List.reverse_cons, List.append_assoc]
      rfl

theorem start?_of_isDigit {c : Char} (h : c.isDigit = true) :
    start? c = some ([], .number [c]) := by
  have hne : ∀ d : Char, d.isDigit = false → c ≠ d := by
    intro d hd heq
    rw [heq, hd] at h
    cases h
  have hspace : isSpace c = false := by
    simp [isSpace, hne ' ' rfl, hne '\t' rfl, hne '\n' rfl, hne '\r' rfl]
  simp [start?, hspace, h, hne '[' rfl, hne ']' rfl, hne '{' rfl, hne '}' rfl, hne ',' rfl,
    hne ':' rfl, hne '"' rfl]

/-- Characters that are scanned as one number. -/
structure IsNumeric (cs : List Char) : Prop where
  start : ∃ c rest, cs = c :: rest ∧ (c = '-' ∨ c.isDigit = true)
  continues : ∀ c ∈ cs, continuesNumber c = true

theorem scanFrom?_isNumeric {cs rest : List Char} (hcs : IsNumeric cs) (hrest : Ends rest) :
    scanFrom? .gap (cs ++ rest) =
      (Number.read? cs).bind fun n => followedBy [.number n] rest := by
  obtain ⟨c, ds, rfl, hc⟩ := hcs.start
  have hstep : advance? .gap c = some ([], .number [c]) := by
    cases hc with
    | inl hminus => rw [hminus]; rfl
    | inr hdigit => exact start?_of_isDigit hdigit
  have hread : (ds.reverse ++ [c]).reverse = c :: ds := by simp
  rw [List.cons_append, scanFrom?_cons hstep,
    scanFrom?_number fun d hd => hcs.continues d (List.mem_cons_of_mem c hd),
    scanFrom?_number_end hrest, ofNumber?, hread]
  cases Number.read? (c :: ds) <;> rfl

theorem scanFrom?_lower {read cs rest : List Char} (hcs : ∀ c ∈ cs, c.isLower = true) :
    scanFrom? (.word read) (cs ++ rest) = scanFrom? (.word (cs.reverse ++ read)) rest := by
  induction cs generalizing read with
  | nil => rfl
  | cons c cs ih =>
      have hstep : advance? (.word read) c = some ([], .word (c :: read)) := by
        rw [advance?_word, if_pos (hcs c List.mem_cons_self)]
      rw [List.cons_append, scanFrom?_cons hstep, ih fun d hd => hcs d (List.mem_cons_of_mem c hd),
        List.reverse_cons, List.append_assoc]
      rfl

theorem scanFrom?_word {c : Char} {cs rest : List Char} {token : Token}
    (hstart : start? c = some ([], .word [c])) (hlower : ∀ d ∈ cs, d.isLower = true)
    (htoken : ofWord? (cs.reverse ++ [c]) = some token) (hrest : Ends rest) :
    scanFrom? .gap (c :: cs ++ rest) = followedBy [token] rest := by
  rw [List.cons_append, scanFrom?_cons (show advance? .gap c = some ([], .word [c]) from hstart),
    scanFrom?_lower hlower, scanFrom?_word_end hrest, htoken]
  rfl

/-! ## Strings -/

theorem hexValue?_hexDigit : ∀ n < 16, hexValue? (hexDigit n) = some n := by decide

/-- An escaped character comes back. -/
theorem scanFrom?_stringChar (read : List Char) (c : Char) (cs : List Char) :
    scanFrom? (.text read) (stringChar c ++ cs) = scanFrom? (.text (c :: read)) cs := by
  have escaped : ∀ e : Char, escape? read e = some (.text (c :: read)) →
      scanFrom? (.text read) ('\\' :: e :: cs) = scanFrom? (.text (c :: read)) cs := by
    intro e he
    have hopen : advance? (.text read) '\\' = some ([], .escape read) := rfl
    have hclose : advance? (.escape read) e = some ([], .text (c :: read)) := by
      rw [advance?_escape, he]
      rfl
    rw [scanFrom?_cons hopen, scanFrom?_cons hclose]
  unfold stringChar
  split
  · subst_vars
    exact escaped '"' rfl
  split
  · subst_vars
    exact escaped '\\' rfl
  split
  · subst_vars
    exact escaped 'b' rfl
  split
  · subst_vars
    exact escaped 't' rfl
  split
  · subst_vars
    exact escaped 'n' rfl
  split
  · subst_vars
    exact escaped 'f' rfl
  split
  · subst_vars
    exact escaped 'r' rfl
  split
  · rename_i hcontrol
    have hhigh := hexValue?_hexDigit (c.toNat / 16) (by omega)
    have hlow := hexValue?_hexDigit (c.toNat % 16) (by omega)
    have hzero : hexValue? '0' = some 0 := rfl
    have hvalue : c.toNat / 16 * 16 + c.toNat % 16 = c.toNat := by omega
    have hsurrogate : ¬(0xD800 ≤ c.toNat ∧ c.toNat < 0xDC00) ∧
        ¬(0xDC00 ≤ c.toNat ∧ c.toNat < 0xE000) := by omega
    simp [scanFrom?, advance?, escape?, hhigh, hlow, hzero, unitDone?, hvalue, hsurrogate]
  · rename_i hquote hbackslash _ _ _ _ _ hprintable
    have hstep : advance? (.text read) c = some ([], .text (c :: read)) := by
      rw [advance?_text, if_neg hquote, if_neg hbackslash, if_neg hprintable]
    exact scanFrom?_cons hstep cs

theorem scanFrom?_flatMap_stringChar (read cs rest : List Char) :
    scanFrom? (.text read) (cs.flatMap stringChar ++ rest) =
      scanFrom? (.text (cs.reverse ++ read)) rest := by
  induction cs generalizing read with
  | nil => rfl
  | cons c cs ih =>
      rw [List.flatMap_cons, List.append_assoc, scanFrom?_stringChar, ih, List.reverse_cons,
        List.append_assoc]
      rfl

/-- A string is scanned to itself. -/
theorem scanFrom?_stringText (s : String) (rest : List Char) :
    scanFrom? .gap (stringText s ++ rest) = followedBy [.string s] rest := by
  have hopen : advance? .gap '"' = some ([], .text []) := rfl
  have hclose : advance? (.text (s.toList.reverse ++ [])) '"' = some ([.string s], .gap) := by
    simp [advance?_text]
  rw [stringText, List.append_assoc, List.cons_append, scanFrom?_cons hopen,
    scanFrom?_flatMap_stringChar, List.singleton_append, scanFrom?_step, hclose]
  show (scanFrom? .gap rest).bind (fun more => some ([.string s] ++ more)) = _
  rw [followedBy]
  cases scanFrom? .gap rest <;> rfl

/-! ## Texts of numbers -/

theorem continuesNumber_of_isDigit {c : Char} (h : c.isDigit = true) :
    continuesNumber c = true := by
  simp [continuesNumber, h]

theorem IsNumeric.append {cs ds : List Char} (h : IsNumeric cs)
    (hds : ∀ c ∈ ds, continuesNumber c = true) : IsNumeric (cs ++ ds) where
  start := by
    obtain ⟨c, rest, rfl, hc⟩ := h.start
    exact ⟨c, rest ++ ds, rfl, hc⟩
  continues c hc := (List.mem_append.1 hc).elim (h.continues c) (hds c)

theorem isNumeric_of_isDigit {ds : List Char} (hne : ds ≠ []) (hds : ∀ c ∈ ds, c.isDigit = true) :
    IsNumeric ds where
  start := by
    cases ds with
    | nil => exact absurd rfl hne
    | cons c rest => exact ⟨c, rest, rfl, .inr (hds c List.mem_cons_self)⟩
  continues c hc := continuesNumber_of_isDigit (hds c hc)

theorem isNumeric_minus {cs : List Char} (h : ∀ c ∈ cs, continuesNumber c = true) :
    IsNumeric ('-' :: cs) where
  start := ⟨'-', cs, rfl, .inl rfl⟩
  continues c hc := (List.mem_cons.1 hc).elim (fun heq => heq ▸ rfl) (h c)

theorem isDigit_of_mem_digitChars {d : Decimal} {c : Char} (h : c ∈ d.digitChars) :
    c.isDigit = true :=
  Nat.isDigit_of_mem_toDigits (by decide) (by decide) h

theorem isNumeric_digitChars (d : Decimal) : IsNumeric d.digitChars :=
  isNumeric_of_isDigit Nat.toDigits_ne_nil fun _ => isDigit_of_mem_digitChars

theorem isNumeric_toString (n : Int) : IsNumeric (toString n).toList := by
  have hdigits : ∀ c ∈ Nat.toDigits 10 n.natAbs, c.isDigit = true :=
    (Numeral.isWhole_toDigits n.natAbs).isDigit
  rw [toList_toString_int]
  split
  · exact isNumeric_minus fun c hc => continuesNumber_of_isDigit (hdigits c hc)
  · exact isNumeric_of_isDigit Nat.toDigits_ne_nil hdigits

theorem continuesNumber_of_mem_replicate {n : Nat} {c : Char} (h : c ∈ List.replicate n '0') :
    continuesNumber c = true := by
  rw [List.eq_of_mem_replicate h]
  rfl

theorem isNumeric_positional (d : Decimal) : IsNumeric d.positional := by
  have hdigits := isNumeric_digitChars d
  unfold Decimal.positional
  simp only
  split
  · exact hdigits.append fun c => continuesNumber_of_mem_replicate
  · split
    · rename_i hpoint
      refine (isNumeric_of_isDigit ?_ ?_).append ?_
      · intro hempty
        cases List.take_eq_nil_iff.1 hempty with
        | inl hzero => omega
        | inr hnil => exact Nat.toDigits_ne_nil hnil
      · intro c hc
        exact isDigit_of_mem_digitChars (List.mem_of_mem_take hc)
      · intro c hc
        cases List.mem_cons.1 hc with
        | inl heq => exact heq ▸ rfl
        | inr hmem => exact hdigits.continues c (List.mem_of_mem_drop hmem)
    · have hzero : IsNumeric ['0', '.'] := ⟨⟨'0', ['.'], rfl, .inr rfl⟩, List.all_eq_true.1 rfl⟩
      rw [List.cons_append, List.cons_append]
      refine hzero.append fun c hc => ?_
      cases List.mem_append.1 hc with
      | inl hmem => exact continuesNumber_of_mem_replicate hmem
      | inr hmem => exact hdigits.continues c hmem

theorem isNumeric_scientific (d : Decimal) : IsNumeric (Number.scientific d) := by
  have hdigits := isNumeric_digitChars d
  unfold Number.scientific
  simp only
  cases hchars : d.digitChars with
  | nil => exact absurd hchars Nat.toDigits_ne_nil
  | cons c cs =>
      rw [hchars] at hdigits
      have hfirst : IsNumeric [c] := by
        refine isNumeric_of_isDigit (List.cons_ne_nil c []) fun e he => ?_
        rw [List.mem_singleton.1 he]
        exact isDigit_of_mem_digitChars (hchars ▸ List.mem_cons_self)
      refine (hfirst.append fun e he => ?_).append fun e he => ?_
      · cases cs with
        | nil => cases he
        | cons c' cs =>
            cases List.mem_cons.1 he with
            | inl heq => exact heq ▸ rfl
            | inr hmem => exact hdigits.continues e (List.mem_cons_of_mem c hmem)
      · cases List.mem_cons.1 he with
        | inl heq => exact heq ▸ rfl
        | inr hmem => exact (isNumeric_toString _).continues e hmem

theorem isNumeric_realText (x : Float) : IsNumeric (Number.realText x) := by
  have hmagnitude : ∀ (p q : Prop) [Decidable p] [Decidable q], IsNumeric
      (if p then
        if q then (Decimal.shortest x .toEven).positional ++ ['.', '0']
        else (Decimal.shortest x .toEven).positional
      else Number.scientific (Decimal.shortest x .toEven)) := by
    intro p q _ _
    split
    · split
      · exact (isNumeric_positional _).append (List.all_eq_true.1 rfl)
      · exact isNumeric_positional _
    · exact isNumeric_scientific _
  unfold Number.realText
  simp only
  by_cases hsign : x.toBits.toNat < UInt64.size / 2
  · rw [if_pos hsign]
    exact hmagnitude _ _
  · rw [if_neg hsign]
    exact isNumeric_minus (hmagnitude _ _).continues

/-- The text of a number is scanned as one number. -/
theorem isNumeric_text (n : Number) : IsNumeric n.text := by
  cases n with
  | int n => exact isNumeric_toString n
  | real x => exact isNumeric_realText x

/-! ## Documents -/

theorem followedBy_bind {α : Type} {found : Option α} {more : α → List Token}
    {rest rest' : List Char}
    (h : scanFrom? .gap rest = found.bind fun a => followedBy (more a) rest')
    (front : List Token) :
    followedBy front rest = found.bind fun a => followedBy (front ++ more a) rest' := by
  rw [followedBy, h]
  cases found with
  | none => rfl
  | some a => exact followedBy_append front (more a) rest'

theorem ends_comma (cs : List Char) : Ends (',' :: cs) := ends_cons ⟨rfl, rfl⟩ cs

theorem ends_arrayEnd (cs : List Char) : Ends (']' :: cs) := ends_cons ⟨rfl, rfl⟩ cs

theorem ends_objectEnd (cs : List Char) : Ends ('}' :: cs) := ends_cons ⟨rfl, rfl⟩ cs

/-- Tokens, a token of one character, and what comes behind it. -/
theorem followedBy_mark {c : Char} {token : Token} (h : start? c = some ([token], .gap))
    (front : List Token) (cs : List Char) :
    followedBy front (c :: cs) = followedBy (front ++ [token]) cs := by
  rw [followedBy, scanFrom?_mark h, followedBy_append]

mutual

/-- A written document is scanned to its tokens, with each number as its text reads. -/
theorem scanFrom?_render (j : Json) {rest : List Char} (hrest : Ends rest) :
    scanFrom? .gap (render j ++ rest) = (reread j).bind fun j => followedBy (tokens j) rest := by
  cases j with
  | null => exact scanFrom?_word rfl (List.all_eq_true.1 rfl) rfl hrest
  | bool b =>
      cases b with
      | true => exact scanFrom?_word rfl (List.all_eq_true.1 rfl) rfl hrest
      | false => exact scanFrom?_word rfl (List.all_eq_true.1 rfl) rfl hrest
  | number n =>
      rw [render, scanFrom?_isNumeric (isNumeric_text n) hrest, reread, Number.reread]
      cases Number.read? n.text <;> rfl
  | string s => exact scanFrom?_stringText s rest
  | array items =>
      have hitems :=
        followedBy_bind (scanFrom?_renderItems items (ends_arrayEnd rest)) [.arrayStart]
      rw [render, List.append_assoc, List.cons_append, List.singleton_append, scanFrom?_mark rfl,
        hitems, reread]
      cases rereadItems items with
      | none => rfl
      | some items => exact followedBy_mark rfl _ rest
  | object members =>
      have hmembers :=
        followedBy_bind (scanFrom?_renderMembers members (ends_objectEnd rest)) [.objectStart]
      rw [render, List.append_assoc, List.cons_append, List.singleton_append, scanFrom?_mark rfl,
        hmembers, reread]
      cases rereadMembers members with
      | none => rfl
      | some members => exact followedBy_mark rfl _ rest

theorem scanFrom?_renderItems (items : List Json) {rest : List Char} (hrest : Ends rest) :
    scanFrom? .gap (renderItems items ++ rest) =
      (rereadItems items).bind fun items => followedBy (tokensOfItems items) rest := by
  match items with
  | [] =>
      show scanFrom? .gap rest = (scanFrom? .gap rest).map ([] ++ ·)
      cases scanFrom? .gap rest <;> rfl
  | [j] =>
      rw [renderItems_singleton, scanFrom?_render j hrest, rereadItems]
      cases reread j <;> rfl
  | j :: k :: items =>
      have hothers := scanFrom?_renderItems (k :: items) hrest
      rw [renderItems_cons, List.append_assoc, List.cons_append, scanFrom?_render j (ends_comma _),
        rereadItems]
      cases reread j with
      | none => rfl
      | some j =>
          rw [Option.bind_some, Option.bind_some, followedBy_mark rfl, followedBy_bind hothers,
            rereadItems]
          cases reread k with
          | none => rfl
          | some k =>
              cases rereadItems items with
              | none => rfl
              | some items =>
                  rw [Option.bind_some, Option.map_some, Option.map_some, Option.bind_some,
                    Option.bind_some, tokensOfItems_cons, List.append_assoc, List.singleton_append]

theorem scanFrom?_renderMembers (members : List (String × Json)) {rest : List Char}
    (hrest : Ends rest) :
    scanFrom? .gap (renderMembers members ++ rest) =
      (rereadMembers members).bind fun members => followedBy (tokensOfMembers members) rest := by
  match members with
  | [] =>
      show scanFrom? .gap rest = (scanFrom? .gap rest).map ([] ++ ·)
      cases scanFrom? .gap rest <;> rfl
  | [(key, j)] =>
      rw [renderMembers_singleton, List.append_assoc, List.cons_append, scanFrom?_stringText,
        followedBy_mark rfl, followedBy_bind (scanFrom?_render j hrest), rereadMembers]
      cases reread j <;> rfl
  | (key, j) :: m :: members =>
      have hothers := scanFrom?_renderMembers (m :: members) hrest
      have hfirst := scanFrom?_render j (ends_comma (renderMembers (m :: members) ++ rest))
      rw [renderMembers_cons, List.append_assoc, List.append_assoc, List.cons_append,
        List.cons_append, scanFrom?_stringText, followedBy_mark rfl, followedBy_bind hfirst,
        rereadMembers]
      cases reread j with
      | none => rfl
      | some j =>
          rw [Option.bind_some, Option.bind_some, followedBy_mark rfl, followedBy_bind hothers,
            rereadMembers]
          cases reread m.2 with
          | none => rfl
          | some k =>
              cases rereadMembers members with
              | none => rfl
              | some members =>
                  rw [Option.bind_some, Option.map_some, Option.map_some, Option.bind_some,
                    Option.bind_some, tokensOfMembers_cons]
                  simp only [List.append_assoc, List.cons_append, List.nil_append]

end

end Token

/-- The tokens of the text of a document. -/
theorem scan?_text (j : Json) :
    Token.scan? j.text.toList = (reread j).map tokens := by
  have hends : Token.Ends [] := nofun
  have hscan := Token.scanFrom?_render j hends
  rw [List.append_nil] at hscan
  rw [text, String.toList_ofList, Token.scan?, hscan]
  cases reread j with
  | none => rfl
  | some j =>
      show (some ([] : List Token)).map (tokens j ++ ·) = _
      rw [Option.map_some, List.append_nil]
      rfl

end ScriptDebugger.Json
