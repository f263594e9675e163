import ScriptDebugger.Engine.Value
/-!
# References

While a program is paused the front end asks for the variables of frames and objects by small
numbers. A frame's number follows from its place on the stack; an object gets a number when it is
first shown, and keeps it until the pause ends. Numbers are never given out again, so one that is
kept beyond its pause means nothing.

## Main results

* `resolve_allocate` — a number that is given out resolves to its object.
* `allocate_idem` — an object that has a number keeps it.
-/

namespace ScriptDebugger.Debug

/-- The greatest number of a frame. -/
def maxFrames : Nat := 0xfff

/-- The number of the global object of a paused program. -/
def globalReference : Nat := maxFrames + 1

/-- The first number for an object that is met during a pause. -/
def firstReference : Nat := globalReference + 1

/-- What a reference means. -/
inductive Target
  /-- The bindings of the frame that many places below the top of the stack. -/
  | frame (index : Nat)
  /-- The properties of an object. -/
  | object (id : ObjectId)
  deriving DecidableEq, Repr

/-- The references of a pause. Both tables are read from the front: a later entry hides an earlier
one. -/
structure Handles where
  /-- The number that is given out next. -/
  next : Nat := firstReference
  /-- What numbers mean. -/
  byNumber : List (Nat × ObjectId) := []
  /-- Which numbers objects have. -/
  byObject : List (ObjectId × Nat) := []
  deriving DecidableEq, Repr

namespace Handles

/-- No references; the numbers start anew. -/
def initial : Handles := {}

/-- The reference of the bindings of a frame, for frames that have one. -/
def frameHandle (index : Nat) : Option Nat := if index < maxFrames then some (index + 1) else none

/-- The entry of a key. -/
def find {α β : Type} [BEq α] (key : α) (table : List (α × β)) : Option β :=
  (table.find? fun entry => entry.1 == key).map Prod.snd

/-- Gives an object the number of the global object. -/
def anchorGlobal (h : Handles) (id : ObjectId) : Handles :=
  { h with
    byNumber := (globalReference, id) :: h.byNumber, byObject := (id, globalReference) :: h.byObject }

/-- The number of an object: the one it has, or else a new one. -/
def allocate (h : Handles) (id : ObjectId) : Handles × Nat :=
  match find id h.byObject with
  | some number => (h, number)
  | none =>
    ({ next := h.next + 1, byNumber := (h.next, id) :: h.byNumber,
       byObject := (id, h.next) :: h.byObject }, h.next)

/-- What a reference means. -/
def resolve (h : Handles) (number : Nat) : Option Target :=
  if number = 0 then none
  else if number ≤ maxFrames then some (.frame (number - 1))
  else (find number h.byNumber).map .object

/-- Forgets all objects; the numbers go on counting. -/
def clear (h : Handles) : Handles := { h with byNumber := [], byObject := [] }

theorem allocate_idem (h : Handles) (id : ObjectId) :
    (h.allocate id).1.allocate id = h.allocate id := by
  cases hf : find id h.byObject with
  | some number => simp [allocate, hf]
  | none =>
    have : find id ((id, h.next) :: h.byObject) = some h.next := by simp [find]
    simp [allocate, hf, this]

theorem resolve_allocate {h : Handles} {id : ObjectId} (hnext : maxFrames < h.next)
    (hnew : find id h.byObject = none) :
    (h.allocate id).1.resolve (h.allocate id).2 = some (.object id) := by
  have h0 : h.next ≠ 0 := by omega
  have h1 : ¬ h.next ≤ maxFrames := by omega
  unfold allocate
  simp only [hnew]
  simp [resolve, h0, h1, find]

end Handles

end ScriptDebugger.Debug
