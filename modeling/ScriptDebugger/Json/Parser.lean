import ScriptDebugger.Json.Basic
import ScriptDebugger.Json.Token
/-!
# Reading a JSON text

The tokens drive a machine whose stack holds the arrays and objects that are open. A text is a
document when the machine has read exactly one value at its end and never had more than 127 arrays
and objects open.

## Main results

* `steps_append` — reading tokens in two runs is reading them in one.
-/

namespace ScriptDebugger.Json

/-- An array or object that is open; what it holds so far stands last first. -/
inductive Open
  | array (items : List Json)
  | object (members : List (String × Json)) (key : String)

/-- What the reader waits for. -/
inductive Expecting
  /-- A value. -/
  | value
  /-- The first item of an array, or its end. -/
  | firstItem
  /-- The first key of an object, or its end. -/
  | firstKey (members : List (String × Json))
  /-- A further key of an object. -/
  | key (members : List (String × Json))
  /-- The colon after a key. -/
  | colon (members : List (String × Json)) (key : String)
  /-- What may follow the value that was just read. -/
  | after (value : Json)

/-- A point in the midst of reading. -/
structure Progress where
  /-- The arrays and objects around this point, the innermost first. -/
  stack : List Open
  /-- What comes next. -/
  expecting : Expecting

namespace Progress

/-- The most arrays and objects that may be open at once. -/
def depthLimit : Nat := 127

/-- Opens an array or an object, unless too many are open. The object's members are gathered
outside the stack until its first key is known. -/
def enter? (stack : List Open) (next : Expecting) (depth : Nat) : Option Progress :=
  if depth < depthLimit then some ⟨stack, next⟩ else none

/-- How many arrays and objects are open around a point that waits for a value. -/
def depth (stack : List Open) : Nat := stack.length

/-- A token where a value is due. -/
def beginValue? (stack : List Open) : Token → Option Progress
  | .null => some ⟨stack, .after .null⟩
  | .bool b => some ⟨stack, .after (.bool b)⟩
  | .number n => some ⟨stack, .after (.number n)⟩
  | .string s => some ⟨stack, .after (.string s)⟩
  | .arrayStart => enter? (.array [] :: stack) .firstItem (depth stack)
  | .objectStart => enter? stack (.firstKey []) (depth stack)
  | .arrayEnd | .objectEnd | .comma | .colon => none

/-- A token after a value: it ends the array or object around it, or asks for more. -/
def afterValue? (stack : List Open) (value : Json) (token : Token) : Option Progress :=
  match stack, token with
  | .array items :: rest, .comma => some ⟨.array (value :: items) :: rest, .value⟩
  | .array items :: rest, .arrayEnd => some ⟨rest, .after (.array (value :: items).reverse)⟩
  | .object members key :: rest, .comma => some ⟨rest, .key ((key, value) :: members)⟩
  | .object members key :: rest, .objectEnd =>
    some ⟨rest, .after (.object ((key, value) :: members).reverse)⟩
  | _, _ => none

/-- One token. -/
def step? (p : Progress) (token : Token) : Option Progress :=
  match p.expecting, token with
  | .value, _ => beginValue? p.stack token
  | .firstItem, .arrayEnd =>
    match p.stack with
    | _ :: rest => some ⟨rest, .after (.array [])⟩
    | [] => none
  | .firstItem, _ => beginValue? p.stack token
  | .firstKey _, .objectEnd => some ⟨p.stack, .after (.object [])⟩
  | .firstKey members, .string key => some ⟨p.stack, .colon members key⟩
  | .firstKey _, _ => none
  | .key members, .string key => some ⟨p.stack, .colon members key⟩
  | .key _, _ => none
  | .colon members key, .colon => some ⟨.object members key :: p.stack, .value⟩
  | .colon _ _, _ => none
  | .after value, _ => afterValue? p.stack value token

/-- A run of tokens. -/
def steps? (p : Progress) : List Token → Option Progress
  | [] => some p
  | token :: tokens => (step? p token).bind fun next => steps? next tokens

theorem steps_append (p : Progress) (front back : List Token) :
    steps? p (front ++ back) = (steps? p front).bind fun next => steps? next back := by
  induction front generalizing p with
  | nil => rfl
  | cons token tokens ih =>
    simp only [List.cons_append, steps?]
    cases step? p token with
    | none => rfl
    | some next => exact ih next

/-- The document that was read, if nothing is open or missing. -/
def document? (p : Progress) : Option Json :=
  match p.stack, p.expecting with
  | [], .after value => some value
  | _, _ => none

end Progress

/-- The document of a run of tokens. -/
def ofTokens? (tokens : List Token) : Option Json :=
  (Progress.steps? ⟨[], .value⟩ tokens).bind Progress.document?

/-- The document that a text writes, with its members as written. -/
def parse? (text : String) : Option Json := (Token.scan? text.toList).bind ofTokens?

/-- The document that a text writes, in canonical form. -/
def read? (text : String) : Option Json := (parse? text).map canonical

end ScriptDebugger.Json
