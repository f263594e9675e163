import ScriptDebugger.Toml.Value
/-!
# Reading a settings document

The reader goes through the characters once. Each of its parts takes characters from the front and
gives what it read and the characters that are left. Line ends are line feeds, with a carriage
return in front of them or not; no other control character but the tab may stand anywhere.

## Main results

* `hex?_append` — the digits of a code point are read one by one.
-/

namespace ScriptDebugger.Toml

/-- Characters with every line end as a single line feed. -/
def unifyLineEnds : List Char → List Char
  | '\r' :: '\n' :: cs => '\n' :: unifyLineEnds cs
  | c :: cs => c :: unifyLineEnds cs
  | [] => []

/-- Whether a character is a blank within a line. -/
def isGap (c : Char) : Bool := c == ' ' || c == '\t'

/-- Whether a character may stand in a text or a comment. -/
def isPlain (c : Char) : Bool := c == '\t' || (0x20 ≤ c.toNat && c.toNat != 0x7F)

/-- The characters without the blanks in front. -/
def skipGaps (cs : List Char) : List Char := cs.dropWhile isGap

/-- Skips a comment, if there is one, up to the end of its line. -/
def skipComment : List Char → List Char
  | '#' :: cs => cs.dropWhile isPlain
  | cs => cs

/-- Skips blanks and a comment up to the end of the line, which has to follow. -/
def endLine? (cs : List Char) : Option (List Char) :=
  match skipComment (skipGaps cs) with
  | [] => some []
  | '\n' :: rest => some rest
  | _ :: _ => none

/-! ## Text -/

/-- The value of a digit in base sixteen. -/
def hexDigit? (c : Char) : Option Nat :=
  if c.isDigit then some (c.toNat - '0'.toNat)
  else if 'a' ≤ c ∧ c ≤ 'f' then some (c.toNat - 'a'.toNat + 10)
  else if 'A' ≤ c ∧ c ≤ 'F' then some (c.toNat - 'A'.toNat + 10)
  else none

/-- The number that digits in base sixteen write behind a number. -/
def hex? (n : Nat) : List Char → Option Nat
  | [] => some n
  | c :: cs => (hexDigit? c).bind fun d => hex? (n * 16 + d) cs

theorem hex?_append (n : Nat) (front back : List Char) :
    hex? n (front ++ back) = (hex? n front).bind fun m => hex? m back := by
  induction front generalizing n with
  | nil => rfl
  | cons c cs ih =>
    simp only [List.cons_append, hex?]
    cases hexDigit? c with
    | none => rfl
    | some d => exact ih (n * 16 + d)

/-- The character of a code point. -/
def codePoint? (n : Nat) : Option Char :=
  if h : n.isValidChar then some (Char.ofNatAux n h) else none

/-- What follows a backslash: a letter for a control character, a quote, a backslash, or a code
point in four or eight digits. -/
def escape? : List Char → Option (Char × List Char)
  | 'b' :: cs => some ('\x08', cs)
  | 't' :: cs => some ('\t', cs)
  | 'n' :: cs => some ('\n', cs)
  | 'f' :: cs => some ('\x0c', cs)
  | 'r' :: cs => some ('\r', cs)
  | '"' :: cs => some ('"', cs)
  | '\\' :: cs => some ('\\', cs)
  | 'u' :: cs => ((hex? 0 (cs.take 4)).bind codePoint?).bind fun c =>
    if 4 ≤ cs.length then some (c, cs.drop 4) else none
  | 'U' :: cs => ((hex? 0 (cs.take 8)).bind codePoint?).bind fun c =>
    if 8 ≤ cs.length then some (c, cs.drop 8) else none
  | _ => none

theorem escape?_length_lt {cs rest : List Char} {c : Char} (h : escape? cs = some (c, rest)) :
    rest.length < cs.length := by
  unfold escape? at h
  split at h <;> try simp_all
  · simp only [Option.bind_eq_some_iff, Option.ite_none_right_eq_some, Option.some.injEq,
      Prod.mk.injEq] at h
    obtain ⟨_, _, _, _, rfl⟩ := h
    rw [List.length_drop]
    omega
  · simp only [Option.bind_eq_some_iff, Option.ite_none_right_eq_some, Option.some.injEq,
      Prod.mk.injEq] at h
    obtain ⟨_, _, _, _, rfl⟩ := h
    rw [List.length_drop]
    omega

/-- Text in double quotes, behind the first of them; `read` is what was read, last first. -/
def quotedText? (read cs : List Char) : Option (String × List Char) :=
  match cs with
  | [] => none
  | '"' :: rest => some (String.ofList read.reverse, rest)
  | '\\' :: rest =>
    match _h : escape? rest with
    | none => none
    | some (c, rest) => quotedText? (c :: read) rest
  | c :: rest => if isPlain c then quotedText? (c :: read) rest else none
termination_by cs.length
decreasing_by
  · have := escape?_length_lt _h
    simp only [List.length_cons]
    omega
  · simp

/-- Text in single quotes, behind the first of them, which holds no escapes. -/
def rawText? (cs : List Char) : Option (String × List Char) :=
  match cs.dropWhile fun c => isPlain c && c != '\'' with
  | '\'' :: rest => some (String.ofList (cs.takeWhile fun c => isPlain c && c != '\''), rest)
  | _ => none

/-- The end of a text over several lines: three quotes, and up to two more that belong to it. -/
def closeBlock? (quote : Char) (read : List Char) : List Char → Option (String × List Char)
  | a :: b :: c :: rest =>
    if a = quote ∧ b = quote ∧ c = quote then
      let extra := (rest.take 2).takeWhile (· == quote)
      some (String.ofList (read.reverse ++ extra), rest.drop extra.length)
    else none
  | _ => none

/-- The rest behind a backslash that joins lines: blanks, a line end, and all blanks and line ends
after it are skipped. -/
def joinLines? (cs : List Char) : Option (List Char) :=
  match skipGaps cs with
  | '\n' :: rest => some (rest.dropWhile fun c => isGap c || c == '\n')
  | _ => none

theorem joinLines?_length_le {cs rest : List Char} (h : joinLines? cs = some rest) :
    rest.length ≤ cs.length := by
  unfold joinLines? at h
  split at h
  · rename_i tail heq
    have hs : (skipGaps cs).length ≤ cs.length := (List.dropWhile_sublist _).length_le
    rw [heq] at hs
    simp only [Option.some.injEq] at h
    subst h
    have := (List.dropWhile_sublist (l := tail) fun c => isGap c || c == '\n').length_le
    simp only [List.length_cons] at hs
    omega
  · simp at h

/-- Text in three double quotes, behind them. -/
def quotedBlock? (read cs : List Char) : Option (String × List Char) :=
  match closeBlock? '"' read cs with
  | some result => some result
  | none =>
    match cs with
    | [] => none
    | '\\' :: rest =>
      match _hj : joinLines? rest with
      | some rest => quotedBlock? read rest
      | none =>
        match _he : escape? rest with
        | none => none
        | some (c, rest) => quotedBlock? (c :: read) rest
    | c :: rest => if isPlain c || c == '\n' then quotedBlock? (c :: read) rest else none
termination_by cs.length
decreasing_by
  · have := joinLines?_length_le _hj
    simp
    omega
  · have := escape?_length_lt _he
    simp only [List.length_cons]
    omega
  · simp

/-- Text in three single quotes, behind them. -/
def rawBlock? (read : List Char) : List Char → Option (String × List Char)
  | [] => none
  | c :: rest =>
    match closeBlock? '\'' read (c :: rest) with
    | some result => some result
    | none => if isPlain c || c == '\n' then rawBlock? (c :: read) rest else none

/-- The characters without one line end in front. -/
def skipFirstLineEnd : List Char → List Char
  | '\n' :: cs => cs
  | cs => cs

/-- A text of one line. -/
def lineText? : List Char → Option (String × List Char)
  | '"' :: cs => quotedText? [] cs
  | '\'' :: cs => rawText? cs
  | _ => none

/-- A text. -/
def text? : List Char → Option (String × List Char)
  | '"' :: '"' :: '"' :: cs => quotedBlock? [] (skipFirstLineEnd cs)
  | '\'' :: '\'' :: '\'' :: cs => rawBlock? [] (skipFirstLineEnd cs)
  | cs => lineText? cs

/-! ## Integers and truth values -/

/-- The digits behind a digit: single underscores may stand between digits. -/
def moreDigits? (isDigit : Char → Bool) : List Char → Option (List Char)
  | [] => some []
  | '_' :: c :: cs => if isDigit c then (moreDigits? isDigit cs).map (c :: ·) else none
  | c :: cs => if isDigit c then (moreDigits? isDigit cs).map (c :: ·) else none

/-- Digits, of which there is at least one. -/
def digits? (isDigit : Char → Bool) : List Char → Option (List Char)
  | [] => none
  | c :: cs => if isDigit c then (moreDigits? isDigit cs).map (c :: ·) else none

/-- The number that digits write in a base. -/
def ofDigits (base : Nat) (cs : List Char) : Nat :=
  cs.foldl (fun n c => n * base + (hexDigit? c).getD 0) 0

/-- A number in decimal, without zeros in front. -/
def decimal? (cs : List Char) : Option Nat :=
  match digits? Char.isDigit cs with
  | some ('0' :: _ :: _) => none
  | some ds => some (ofDigits 10 ds)
  | none => none

/-- An integer: in decimal with or without a sign, or in base sixteen, eight or two behind a mark. -/
def integer? : List Char → Option Int
  | '0' :: 'x' :: cs =>
    (digits? (fun c => (hexDigit? c).isSome) cs).map fun ds => (ofDigits 16 ds : Nat)
  | '0' :: 'o' :: cs =>
    (digits? (fun c => '0' ≤ c ∧ c ≤ '7') cs).map fun ds => (ofDigits 8 ds : Nat)
  | '0' :: 'b' :: cs =>
    (digits? (fun c => c == '0' || c == '1') cs).map fun ds => (ofDigits 2 ds : Nat)
  | '-' :: cs => (decimal? cs).map fun n => -(n : Int)
  | '+' :: cs => (decimal? cs).map fun n => (n : Int)
  | cs => (decimal? cs).map fun n => (n : Int)

/-- Whether a character belongs to a value without quotes. -/
def isBare (c : Char) : Bool :=
  c.isAlphanum || c == '+' || c == '-' || c == '_' || c == '.' || c == ':'

/-- A truth value or an integer. -/
def bare? (cs : List Char) : Option (Value × List Char) :=
  let word := cs.takeWhile isBare
  let value :=
    if word = ['t', 'r', 'u', 'e'] then some (.bool true)
    else if word = ['f', 'a', 'l', 's', 'e'] then some (.bool false)
    else (integer? word).map .integer
  value.map fun v => (v, cs.dropWhile isBare)

/-! ## Keys -/

/-- A part of a key: bare or in quotes. -/
def keyPart? (cs : List Char) : Option (String × List Char) :=
  let isKeyChar (c : Char) : Bool := c.isAlphanum || c == '-' || c == '_'
  match cs.takeWhile isKeyChar with
  | [] => lineText? cs
  | part => some (String.ofList part, cs.dropWhile isKeyChar)

/-- A dotted key, of at most `limit` parts, and the blanks around it. -/
def key? : (limit : Nat) → List Char → Option (List String × List Char)
  | 0, _ => none
  | limit + 1, cs => do
    let (part, cs) ← keyPart? (skipGaps cs)
    match skipGaps cs with
    | '.' :: cs =>
      let (parts, cs) ← key? limit cs
      some (part :: parts, cs)
    | cs => some ([part], cs)

/-! ## Values -/

/-- Skips blanks, line ends and comments, at most `limit` times. -/
def skipLines : (limit : Nat) → List Char → List Char
  | 0, cs => cs
  | limit + 1, cs =>
    match skipComment (skipGaps cs) with
    | '\n' :: rest => skipLines limit rest
    | rest => rest

mutual

/-- A value; `limit` bounds the length of what it may hold. -/
def value? : (limit : Nat) → List Char → Option (Value × List Char)
  | 0, _ => none
  | limit + 1, cs =>
    match cs with
    | '[' :: rest => (items? limit (skipLines rest.length rest)).map fun (items, rest) =>
      (.array items, rest)
    | '\x7b' :: rest =>
      match skipGaps rest with
      | '\x7d' :: rest => some (.table .inline [], rest)
      | rest => do
        let (settings, rest) ← settings? limit rest
        let table ← inlineTable? settings
        some (table, rest)
    | '"' :: _ | '\'' :: _ => (text? cs).map fun (text, rest) => (.string text, rest)
    | _ => bare? cs

/-- The items of an array and its end, behind blanks. -/
def items? : (limit : Nat) → List Char → Option (List Value × List Char)
  | 0, _ => none
  | limit + 1, cs =>
    match cs with
    | ']' :: rest => some ([], rest)
    | cs => do
      let (item, cs) ← value? limit cs
      match skipLines cs.length cs with
      | ',' :: cs =>
        let (items, cs) ← items? limit (skipLines cs.length cs)
        some (item :: items, cs)
      | ']' :: cs => some ([item], cs)
      | _ => none

/-- The settings of an inline table, of which there is at least one, and its end. -/
def settings? : (limit : Nat) → List Char → Option (List (List String × Value) × List Char)
  | 0, _ => none
  | limit + 1, cs => do
    let (path, cs) ← key? cs.length cs
    match cs with
    | '=' :: cs =>
      let (value, cs) ← value? limit (skipGaps cs)
      match skipGaps cs with
      | ',' :: cs =>
        let (rest, cs) ← settings? limit cs
        some ((path, value) :: rest, cs)
      | '\x7d' :: cs => some ([(path, value)], cs)
      | _ => none
    | _ => none

end

/-! ## Documents -/

/-- A statement at the start of a line, up to the start of the next line. -/
def statement? (cs : List Char) : Option (Statement × List Char) :=
  match cs with
  | '[' :: cs => do
    let (path, cs) ← key? cs.length cs
    match cs with
    | ']' :: cs => (endLine? cs).map fun cs => (.header path, cs)
    | _ => none
  | cs => do
    let (path, cs) ← key? cs.length cs
    match cs with
    | '=' :: cs =>
      let (value, cs) ← value? cs.length (skipGaps cs)
      (endLine? cs).map fun cs => (.assign path value, cs)
    | _ => none

/-- The statements of a document, of at most `limit` lines. -/
def statements? : (limit : Nat) → List Char → Option (List Statement)
  | 0, _ => none
  | limit + 1, cs =>
    match skipLines cs.length cs with
    | [] => some []
    | cs => do
      let (statement, cs) ← statement? cs
      let rest ← statements? limit cs
      some (statement :: rest)

/-- The characters of a text without a byte order mark in front. -/
def skipMark : List Char → List Char
  | '\uFEFF' :: cs => cs
  | cs => cs

/-- The settings that a text writes. -/
def parse? (text : String) : Option Entries :=
  let cs := unifyLineEnds (skipMark text.toList)
  (statements? (cs.length + 1) cs).bind (build? [] [])

end ScriptDebugger.Toml
