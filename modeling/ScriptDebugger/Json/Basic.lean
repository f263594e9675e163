import ScriptDebugger.Json.Number
/-!
# JSON documents

A document keeps the members of an object as they are written, in order and with repetitions. Its
canonical form has them sorted by key, the last of several members with one key winning.

## Main results

* `insertMember_lookup_self`, `insertMember_lookup_ne` — inserting a member changes the look-up of
  its own key only.
-/

namespace ScriptDebugger

/-- A JSON document. -/
inductive Json
  | null
  | bool (value : Bool)
  | number (value : Json.Number)
  | string (value : String)
  | array (items : List Json)
  | object (members : List (String × Json))

namespace Json

/-- Puts a member into a list that is sorted by key, in the place of one with the same key. -/
def insertMember {α : Type} (key : String) (value : α) : List (String × α) → List (String × α)
  | [] => [(key, value)]
  | (k, v) :: rest =>
    if key < k then (key, value) :: (k, v) :: rest
    else if key = k then (key, value) :: rest
    else (k, v) :: insertMember key value rest

/-- Members sorted by key; of several with one key the last stays. -/
def sortMembers {α : Type} (members : List (String × α)) : List (String × α) :=
  members.foldl (fun sorted m => insertMember m.1 m.2 sorted) []

mutual

/-- The document with every object's members sorted and without repetitions. -/
def canonical : Json → Json
  | .null => .null
  | .bool b => .bool b
  | .number n => .number n
  | .string s => .string s
  | .array items => .array (canonicalItems items)
  | .object members => .object (sortMembers (canonicalMembers members))

/-- The canonical forms of the items of an array. -/
def canonicalItems : List Json → List Json
  | [] => []
  | j :: rest => canonical j :: canonicalItems rest

/-- The members of an object with their values in canonical form. -/
def canonicalMembers : List (String × Json) → List (String × Json)
  | [] => []
  | (k, j) :: rest => (k, canonical j) :: canonicalMembers rest

end

/-- The members that have a key. -/
def lookup (key : String) (members : List (String × Json)) : Option Json :=
  (members.find? fun m => m.1 == key).map Prod.snd

/-- The value of a member of an object. -/
def member? (j : Json) (key : String) : Option Json :=
  match j with
  | .object members => lookup key members
  | _ => none

/-- The text, if the document is one. -/
def string? : Json → Option String
  | .string s => some s
  | _ => none

/-- The truth value, if the document is one. -/
def bool? : Json → Option Bool
  | .bool b => some b
  | _ => none

/-- The natural number, if the document is an integer that is not negative. -/
def nat? : Json → Option Nat
  | .number (.int (.ofNat n)) => some n
  | _ => none

/-- The items, if the document is an array. -/
def array? : Json → Option (List Json)
  | .array items => some items
  | _ => none

theorem insertMember_lookup_self (key : String) (value : Json) (members : List (String × Json)) :
    lookup key (insertMember key value members) = some value := by
  induction members with
  | nil => simp [insertMember, lookup]
  | cons m rest ih =>
    obtain ⟨k, v⟩ := m
    simp only [insertMember]
    split
    · simp [lookup]
    · split
      · simp [lookup]
      · rename_i hne
        have : (k == key) = false := by simpa using fun h => hne h.symm
        simpa [lookup, this] using ih

theorem insertMember_lookup_ne {key other : String} (value : Json)
    (members : List (String × Json)) (h : other ≠ key) :
    lookup other (insertMember key value members) = lookup other members := by
  have hk : (key == other) = false := by simpa using fun e => h e.symm
  induction members with
  | nil => simp [insertMember, lookup, hk]
  | cons m rest ih =>
    obtain ⟨k, v⟩ := m
    simp only [insertMember]
    split
    · simp [lookup, hk]
    · split
      · rename_i he
        subst he
        simp [lookup, hk]
      · by_cases ho : k == other
        · simp [lookup, ho]
        · simpa [lookup, ho] using ih

end Json

end ScriptDebugger
