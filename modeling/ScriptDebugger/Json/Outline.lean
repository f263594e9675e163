import ScriptDebugger.Json.Parser
/-!
# Outlines of records

A record may be read from a text of which only its own fields matter. What another member holds has
to be written like JSON, but it is not looked into: its strings may hold halves of characters, its
numbers may be too great, and its arrays and objects may lie at any depth.

## Main results

* `skipSpaces_length_le`, `skipText_length_lt` — skipping only takes characters from the front.
-/

namespace ScriptDebugger.Json.Outline

/-- The characters without the blanks in front. -/
def skipSpaces (cs : List Char) : List Char := cs.dropWhile Token.isSpace

/-- Whether a character is a digit in base sixteen. -/
def isHex (c : Char) : Bool := (Token.hexValue? c).isSome

/-- Whether a character may stand behind a backslash, code units apart. -/
def isEscape (c : Char) : Bool := ['"', '\\', '/', 'b', 'f', 'n', 'r', 't'].contains c

/-- What follows a string, from behind its first quote. -/
def skipText? : List Char → Option (List Char)
  | [] => none
  | '"' :: cs => some cs
  | '\\' :: 'u' :: a :: b :: c :: d :: cs => if [a, b, c, d].all isHex then skipText? cs else none
  | '\\' :: c :: cs => if isEscape c then skipText? cs else none
  | c :: cs => if c.toNat < 0x20 ∨ c = '\\' then none else skipText? cs

/-- What follows a string, a number or a word. -/
def skipScalar? : List Char → Option (List Char)
  | '"' :: cs => skipText? cs
  | c :: cs =>
    if Token.continuesNumber c then
      let word := (c :: cs).takeWhile Token.continuesNumber
      if (Numeral.read? word).isSome then some ((c :: cs).dropWhile Token.continuesNumber) else none
    else
      let word := (c :: cs).takeWhile Char.isLower
      if (Token.ofWord? word.reverse).isSome then some ((c :: cs).dropWhile Char.isLower) else none
  | [] => none

/-- What follows a key and its colon, from behind the key's first quote. -/
def skipKey? (cs : List Char) : Option (List Char) :=
  match (skipText? cs).map skipSpaces with
  | some (':' :: rest) => some rest
  | _ => none

/-- An array or object that is open. -/
inductive Bracket
  | array
  | object
  deriving DecidableEq, Repr

/-- What comes next. -/
inductive Awaited
  | value
  | firstItem
  | firstKey
  | key
  | afterValue
  deriving DecidableEq, Repr

/-- What follows the value that is being read, inside brackets that are open, the innermost first;
`limit` bounds the number of characters and values. -/
def skipFrom? : (limit : Nat) → List Bracket → Awaited → List Char → Option (List Char)
  | 0, _, _, _ => none
  | limit + 1, brackets, awaited, cs =>
    let scalar (cs : List Char) := (skipScalar? cs).bind (skipFrom? limit brackets .afterValue)
    let key (cs : List Char) := (skipKey? cs).bind (skipFrom? limit brackets .value)
    match awaited, brackets, skipSpaces cs with
    | .afterValue, [], rest => some rest
    | .afterValue, .array :: _, ',' :: rest => skipFrom? limit brackets .value rest
    | .afterValue, .array :: outer, ']' :: rest => skipFrom? limit outer .afterValue rest
    | .afterValue, .object :: _, ',' :: rest => skipFrom? limit brackets .key rest
    | .afterValue, .object :: outer, '}' :: rest => skipFrom? limit outer .afterValue rest
    | .afterValue, _, _ => none
    | .firstItem, _ :: outer, ']' :: rest => skipFrom? limit outer .afterValue rest
    | .firstKey, _ :: outer, '}' :: rest => skipFrom? limit outer .afterValue rest
    | .firstKey, _, '"' :: rest | .key, _, '"' :: rest => key rest
    | .firstKey, _, _ | .key, _, _ => none
    | _, _, '[' :: rest => skipFrom? limit (.array :: brackets) .firstItem rest
    | _, _, '{' :: rest => skipFrom? limit (.object :: brackets) .firstKey rest
    | _, _, rest => scalar rest

/-- What follows a value, without the blanks in front. -/
def skipValue? (cs : List Char) : Option (List Char) := skipFrom? (2 * cs.length + 2) [] .value cs

/-- The characters in front of a rest. -/
def before (cs rest : List Char) : String := String.ofList (cs.take (cs.length - rest.length))

/-- The members of an object and the text of each one's value, from behind its opening brace or a
comma, and what follows the object; `limit` bounds the number of members. -/
def members? : (limit : Nat) → List Char → Option (List (String × String) × List Char)
  | 0, _ => none
  | limit + 1, cs =>
    match skipSpaces cs with
    | '"' :: rest => do
      let value ← skipKey? rest
      let afterKey ← skipText? rest
      let key ← (parse? (before ('"' :: rest) afterKey)).bind string?
      let afterValue ← skipValue? value
      let member := (key, before value afterValue)
      match afterValue with
      | ',' :: cs => do
        let (members, cs) ← members? limit cs
        some (member :: members, cs)
      | '}' :: cs => some ([member], cs)
      | _ => none
    | _ => none

/-- The members of the object that a text writes, and the text of each one's value. -/
def ofObject? (text : String) : Option (List (String × String)) :=
  match skipSpaces text.toList with
  | '{' :: cs =>
    let outline := match skipSpaces cs with
      | '}' :: rest => some ([], rest)
      | _ => members? (cs.length + 1) cs
    outline.bind fun (members, rest) => if skipSpaces rest = [] then some members else none
  | _ => none

theorem skipSpaces_length_le (cs : List Char) : (skipSpaces cs).length ≤ cs.length :=
  (List.dropWhile_sublist _).length_le

theorem skipText_length_lt {cs rest : List Char} (h : skipText? cs = some rest) :
    rest.length < cs.length := by
  fun_induction skipText? cs with
  | case1 => simp at h
  | case2 cs => simp_all
  | case3 a b c d cs hall ih => have := ih h; simp only [List.length_cons]; omega
  | case4 => simp at h
  | case5 c cs _ _ ih => have := ih h; simp only [List.length_cons]; omega
  | case6 => simp at h
  | case7 => simp at h
  | case8 c cs _ _ _ _ ih => have := ih h; simp only [List.length_cons]; omega

/-- The document of a record with the given fields: an object keeps those members only, and other
members are not looked into. -/
def record? (names : List String) (text : String) : Option Json :=
  match skipSpaces text.toList with
  | '{' :: _ => do
    let members ← ofObject? text
    let known ← (members.filter fun m => names.contains m.1).mapM fun (key, value) =>
      (parse? value).map fun j => (key, j)
    some (.object known)
  | _ => parse? text

end ScriptDebugger.Json.Outline
