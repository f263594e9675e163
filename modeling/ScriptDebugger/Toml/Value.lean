/-!
# Settings documents

A TOML document is a table of settings. Dotted keys and headers open tables inside it; a table that
was written in one place is not extended in another. Of the values of the format, those are kept
that a setting can take: text, integers, truth values, lists and tables. A document with any other
value is refused when it is read.

## Main results

* `assign?_fresh` — a key that is not there yet takes its value.
-/

namespace ScriptDebugger.Toml

/-- How a table came about. -/
inductive Origin
  /-- It is written as a value. -/
  | inline
  /-- A dotted key leads through it. -/
  | dotted
  /-- The header of a table inside it leads through it. -/
  | implied
  /-- It has a header. -/
  | header
  deriving DecidableEq, Repr

/-- The value of a setting. -/
inductive Value
  | string (text : String)
  | integer (value : Int)
  | bool (value : Bool)
  | array (items : List Value)
  | table (origin : Origin) (entries : List (String × Value))

/-- The settings of a table, in the order in which they were first written. -/
abbrev Entries := List (String × Value)

/-- The value of a key. -/
def lookup (key : String) (entries : Entries) : Option Value :=
  (entries.find? fun e => e.1 == key).map Prod.snd

/-- The settings with another value for a key that is there. -/
def replace (key : String) (value : Value) (entries : Entries) : Entries :=
  entries.map fun e => if e.1 == key then (key, value) else e

/-- Writes a value under a dotted key. The key must be new, and the tables that it leads through
must have come about by dotted keys. -/
def assign? (value : Value) : (path : List String) → Entries → Option Entries
  | [], _ => none
  | [key], entries =>
    match lookup key entries with
    | none => some (entries ++ [(key, value)])
    | some _ => none
  | key :: path, entries =>
    match lookup key entries with
    | none => (assign? value path []).map fun inner => entries ++ [(key, .table .dotted inner)]
    | some (.table .dotted inner) =>
      (assign? value path inner).map fun inner => replace key (.table .dotted inner) entries
    | some _ => none

theorem assign?_fresh (value : Value) {key : String} {entries : Entries}
    (h : lookup key entries = none) : assign? value [key] entries = some (entries ++ [(key, value)]) := by
  simp [assign?, h]

/-- Opens the table of a header, which must not have been written before. -/
def openTable? : (path : List String) → Entries → Option Entries
  | [], _ => none
  | [key], entries =>
    match lookup key entries with
    | none => some (entries ++ [(key, .table .header [])])
    | some (.table .implied inner) => some (replace key (.table .header inner) entries)
    | some _ => none
  | key :: path, entries =>
    match lookup key entries with
    | none => (openTable? path []).map fun inner => entries ++ [(key, .table .implied inner)]
    | some (.table origin inner) =>
      if origin = .inline then none
      else (openTable? path inner).map fun inner => replace key (.table origin inner) entries
    | some _ => none

/-- Writes a value under a dotted key in the table of a header that was opened. -/
def assignIn? (value : Value) (path : List String) : (header : List String) → Entries → Option Entries
  | [], entries => assign? value path entries
  | key :: header, entries =>
    match lookup key entries with
    | some (.table origin inner) =>
      (assignIn? value path header inner).map fun inner => replace key (.table origin inner) entries
    | _ => none

/-- A statement of a document. -/
inductive Statement
  /-- A header. -/
  | header (path : List String)
  /-- A setting under a dotted key. -/
  | assign (path : List String) (value : Value)

/-- Carries out statements, the last header being `current`. -/
def build? (current : List String) (entries : Entries) : List Statement → Option Entries
  | [] => some entries
  | .header path :: rest => (openTable? path entries).bind fun entries => build? path entries rest
  | .assign path value :: rest =>
    (assignIn? value path current entries).bind fun entries => build? current entries rest

/-- The table that the settings of an inline table make. -/
def inlineTable? (settings : List (List String × Value)) : Option Value :=
  (build? [] [] (settings.map fun s => .assign s.1 s.2)).map (.table .inline)

end ScriptDebugger.Toml
