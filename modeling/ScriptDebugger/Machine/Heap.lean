import ScriptDebugger.Engine.Interface
/-!
# The heap

Objects are numbered in the order of their creation and never go away. Number zero is the global
object. The properties of an object keep the order of their definition.

## Main results

* `lookup_define_self`, `lookup_define_ne` — defining a property changes that property only.
-/

namespace ScriptDebugger.Machine

/-- Looks a name up in a list of named values: the first entry counts. -/
def lookup (name : String) (entries : List (String × Value)) : Option Value :=
  (entries.find? fun entry => entry.1 == name).map Prod.snd

/-- Gives a new value to the first entry of a name, if there is one. -/
def update? (name : String) (value : Value) :
    List (String × Value) → Option (List (String × Value))
  | [] => none
  | (key, old) :: rest =>
    if key = name then some ((key, value) :: rest)
    else (update? name value rest).map ((key, old) :: ·)

/-- Gives a value to a name: to its first entry, or to a new one at the end. -/
def define (name : String) (value : Value) (entries : List (String × Value)) :
    List (String × Value) :=
  (update? name value entries).getD (entries ++ [(name, value)])

theorem update?_eq_none_iff {name : String} {value : Value} {entries : List (String × Value)} :
    update? name value entries = none ↔ lookup name entries = none := by
  induction entries with
  | nil => simp [update?, lookup]
  | cons e rest ih =>
    obtain ⟨key, old⟩ := e
    by_cases h : key = name
    · simp [update?, lookup, h]
    · simp only [update?, h, if_false, Option.map_eq_none_iff, ih]
      simp [lookup, h]

theorem lookup_update?_self {name : String} {value : Value} {entries t : List (String × Value)}
    (h : update? name value entries = some t) : lookup name t = some value := by
  induction entries generalizing t with
  | nil => simp [update?] at h
  | cons e rest ih =>
    obtain ⟨key, old⟩ := e
    by_cases hk : key = name
    · simp only [update?, hk, if_true, Option.some.injEq] at h
      subst h
      simp [lookup]
    · simp only [update?, hk, if_false, Option.map_eq_some_iff] at h
      obtain ⟨u, hu, rfl⟩ := h
      simpa [lookup, hk] using ih hu

theorem lookup_update?_ne {name other : String} {value : Value}
    {entries t : List (String × Value)} (h : update? name value entries = some t)
    (hne : other ≠ name) : lookup other t = lookup other entries := by
  induction entries generalizing t with
  | nil => simp [update?] at h
  | cons e rest ih =>
    obtain ⟨key, old⟩ := e
    by_cases hk : key = name
    · simp only [update?, hk, if_true, Option.some.injEq] at h
      subst h
      have : (name == other) = false := by simpa using fun e => hne e.symm
      simp [lookup, hk, this]
    · simp only [update?, hk, if_false, Option.map_eq_some_iff] at h
      obtain ⟨u, hu, rfl⟩ := h
      by_cases ho : key = other
      · simp [lookup, ho]
      · simpa [lookup, ho] using ih hu

theorem lookup_define_self (name : String) (value : Value) (entries : List (String × Value)) :
    lookup name (define name value entries) = some value := by
  unfold define
  cases h : update? name value entries with
  | some t => exact lookup_update?_self h
  | none =>
    have hnone := update?_eq_none_iff.1 h
    simp only [lookup, Option.map_eq_none_iff] at hnone
    simp [lookup, List.find?_append, hnone]

theorem lookup_define_ne {name other : String} (value : Value) (entries : List (String × Value))
    (hne : other ≠ name) : lookup other (define name value entries) = lookup other entries := by
  unfold define
  cases h : update? name value entries with
  | some t => exact lookup_update?_ne h hne
  | none =>
    have : (name == other) = false := by simpa using fun e => hne e.symm
    simp [lookup, List.find?_append, this]

/-- An object. -/
structure HeapObject where
  /-- The class that the object is shown with. -/
  className : String
  /-- The properties in the order of their definition. -/
  properties : List (String × Value) := []

/-- All objects; an object's number is its place. -/
structure Heap where
  /-- The objects in the order of their creation. -/
  objects : List HeapObject

namespace Heap

/-- The number of the global object. -/
def globalId : ObjectId := ⟨0⟩

/-- A heap with nothing but the global object. -/
def initial : Heap := ⟨[⟨"global", []⟩]⟩

/-- The object of a number. -/
def get? (heap : Heap) (id : ObjectId) : Option HeapObject := heap.objects[id.number]?

/-- Creates an object without properties. -/
def alloc (heap : Heap) (className : String) : Heap × ObjectId :=
  (⟨heap.objects ++ [⟨className, []⟩]⟩, ⟨heap.objects.length⟩)

/-- Defines or changes a property of an object; a number without an object changes nothing. -/
def defineProperty (heap : Heap) (id : ObjectId) (name : String) (value : Value) : Heap :=
  ⟨heap.objects.modify id.number fun o => { o with properties := define name value o.properties }⟩

/-- Defines or changes a property of an object that has to exist. -/
def setProperty (heap : Heap) (id : ObjectId) (name : String) (value : Value) :
    Except EngineError Heap :=
  match heap.get? id with
  | some _ => .ok (heap.defineProperty id name value)
  | none => .error (.unknownObject id)

/-- The content of a property. -/
def property? (heap : Heap) (id : ObjectId) (name : String) : Option Value :=
  (heap.get? id).bind fun o => lookup name o.properties

mutual

/-- Builds the value of a JSON document. Arrays and objects become new objects, each created before
what it holds; an array's items are its properties `0`, `1`, …, followed by its `length`. -/
def importJson (heap : Heap) : Json → Heap × Value
  | .null => (heap, .null)
  | .bool b => (heap, .bool b)
  | .number n => (heap, .number n.toFloat)
  | .string s => (heap, .string s)
  | .array items =>
    let (heap, id) := heap.alloc "Array"
    let heap := importItems heap id 0 items
    (heap.defineProperty id "length" (.number (Float.ofNat items.length)), .object id)
  | .object members =>
    let (heap, id) := heap.alloc "Object"
    (importMembers heap id members, .object id)

/-- Builds the items of an array, which count from `index`, into its properties. -/
def importItems (heap : Heap) (id : ObjectId) (index : Nat) : List Json → Heap
  | [] => heap
  | item :: rest =>
    let (heap, value) := importJson heap item
    importItems (heap.defineProperty id (toString index) value) id (index + 1) rest

/-- Builds the members of an object into its properties. -/
def importMembers (heap : Heap) (id : ObjectId) : List (String × Json) → Heap
  | [] => heap
  | (key, item) :: rest =>
    let (heap, value) := importJson heap item
    importMembers (heap.defineProperty id key value) id rest

end

end Heap

end ScriptDebugger.Machine
