import ScriptDebugger.Json.Basic
/-!
# Records in JSON

A record with named fields is written as an object, or as an array of its fields in their order. In
an object a field may stand once at most, and members that are no fields do not matter. In an array
the last fields may be missing. Whether a field may be missing is for the record to say.
-/

namespace ScriptDebugger.Json

/-- A field of an object: the outer `none` where it stands twice, the inner one where it is
missing. -/
def field? (members : List (String × Json)) (name : String) : Option (Option Json) :=
  match members.filter fun m => m.1 == name with
  | [] => some none
  | [m] => some (some m.2)
  | _ :: _ :: _ => none

/-- The fields of the given names from the items of an array. -/
def fieldsOfItems? : (names : List String) → (items : List Json) → Option (List (Option Json))
  | [], [] => some []
  | [], _ :: _ => none
  | _ :: names, [] => (fieldsOfItems? names []).map (none :: ·)
  | _ :: names, item :: items => (fieldsOfItems? names items).map (some item :: ·)

/-- The fields of the given names from the members of an object. -/
def fieldsOfMembers? (members : List (String × Json)) :
    (names : List String) → Option (List (Option Json))
  | [] => some []
  | name :: names => do
    let value ← field? members name
    let values ← fieldsOfMembers? members names
    some (value :: values)

/-- The fields of the given names, in that order. -/
def fields? (names : List String) : Json → Option (List (Option Json))
  | .object members => fieldsOfMembers? members names
  | .array items => fieldsOfItems? names items
  | _ => none

/-- An integer in a range, both ends included. -/
def intIn? (low high : Int) : Json → Option Int
  | .number (.int n) => if low ≤ n ∧ n ≤ high then some n else none
  | _ => none

/-- A natural number of at most `2 ^ 32 - 1`. -/
def nat32? (j : Json) : Option Nat := (intIn? 0 (UInt32.size - 1) j).map Int.toNat

/-- A natural number of at most `2 ^ 16 - 1`. -/
def nat16? (j : Json) : Option Nat := (intIn? 0 (UInt16.size - 1) j).map Int.toNat

/-- A natural number of at most `2 ^ 64 - 1`. -/
def nat64? (j : Json) : Option Nat := (intIn? 0 (UInt64.size - 1) j).map Int.toNat

/-- An integer from `-2 ^ 63` to `2 ^ 63 - 1`. -/
def int64? (j : Json) : Option Int := intIn? (-9223372036854775808) 9223372036854775807 j

/-- A field that may be missing or null, and else has to be readable. -/
def optional? {α : Type} (read : Json → Option α) : Option Json → Option (Option α)
  | none => some none
  | some .null => some none
  | some j => (read j).map some

/-- Reads every item of an array. -/
def list? {α : Type} (read : Json → Option α) : Json → Option (List α)
  | .array items => items.mapM read
  | _ => none

/-- An integer as a document. -/
def ofInt (n : Int) : Json := .number (.int n)

/-- A natural number as a document. -/
def ofNat (n : Nat) : Json := .number (.int n)

/-- The member for a field that is left out where it has no value. -/
def optionalMember {α : Type} (name : String) (write : α → Json) : Option α → List (String × Json)
  | none => []
  | some a => [(name, write a)]

end ScriptDebugger.Json
