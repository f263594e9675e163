import ScriptDebugger.Engine.Hooks
import ScriptDebugger.Json.Basic
import ScriptDebugger.Source.Location
import ScriptDebugger.Text.Quoted
/-!
# The interface of an engine

What a debugger may ask of a program that it holds: to go one step further, to show its code, its
frames and its objects, to keep breakpoints, and to change a binding or a property. Frames and
objects are named by numbers; a frame's number resolves while the frame is on the stack.

An engine advances in small steps, most of which stop for nothing. `Engine.resumeWithin` repeats
them until an event, as often as it is allowed to.
-/

namespace ScriptDebugger

/-- The source range of a code unit. -/
structure UnitInfo where
  /-- The program that the unit belongs to. -/
  url : String
  /-- Where the unit starts. -/
  start : Location
  /-- How many lines it takes. -/
  lineCount : Nat
  deriving DecidableEq, Repr

/-- What can be seen of an activation. -/
structure FrameInfo where
  /-- The code that runs; a frame of native code has none. -/
  unit : Option UnitId
  /-- The offset of the instruction that is next, or of the call that is under way. -/
  offset : Nat
  /-- What sort of frame it is, shown where there is no callee. -/
  kind : String
  /-- The name under which the function was called. -/
  callee : Option String
  /-- The object that the frame works for. -/
  this : Option Value
  /-- The frame below on the stack. -/
  older : Option FrameId
  /-- The frame below as it was saved when the stack was left. -/
  olderSaved : Option FrameId
  deriving DecidableEq

/-- The frame that is shown below this one: the one on the stack, or else the saved one. -/
def FrameInfo.caller (info : FrameInfo) : Option FrameId := info.older.or info.olderSaved

/-- Why an engine refuses to change something. -/
inductive EngineError
  /-- The frame is not on the stack. -/
  | staleFrame (frame : FrameId)
  /-- There is no such object. -/
  | unknownObject (object : ObjectId)
  /-- The frame has no binding of that name. -/
  | unknownBinding (name : String)
  deriving DecidableEq, Repr

/-- The message for the user of the debugger. -/
def EngineError.message : EngineError → String
  | .staleFrame frame => "frame FrameId(" ++ toString frame.number ++ ") is no longer on the stack"
  | .unknownObject object => "unknown object ObjectId(" ++ toString object.number ++ ")"
  | .unknownBinding name => "no binding named " ++ Text.quoted name ++ " in scope"

/-- A program under a debugger. -/
class Engine (σ : Type) where
  /-- One small step under the hooks: the state after it, and the event to stop for. -/
  advance : Hooks → σ → σ × Option Event
  /-- The units that are not nested in another one. -/
  topUnits : σ → List UnitId
  /-- The source range of a unit. -/
  unitInfo? : σ → UnitId → Option UnitInfo
  /-- The units nested directly in a unit. -/
  childUnits : σ → UnitId → List UnitId
  /-- How many units there are; nesting goes no deeper. -/
  unitCount : σ → Nat
  /-- The offsets of a unit, without the nested ones, where a breakpoint can be set on a line, at a
  column or after it. -/
  breakpointOffsets : σ → UnitId → (line minColumn : Nat) → List Nat
  /-- Where the instruction at an offset stands in the source. -/
  location? : σ → UnitId → (offset : Nat) → Option Location
  /-- Sets a breakpoint. -/
  setBreakpoint : σ → UnitId → (offset : Nat) → σ
  /-- Clears a breakpoint. -/
  clearBreakpoint : σ → UnitId → (offset : Nat) → σ
  /-- What can be seen of a frame. -/
  frame? : σ → FrameId → Option FrameInfo
  /-- The names of a frame's bindings, in order. -/
  bindingNames : σ → FrameId → List String
  /-- The content of a frame's binding. -/
  binding? : σ → FrameId → String → Option Value
  /-- Changes a frame's binding. -/
  setBinding : σ → FrameId → String → Value → Except EngineError σ
  /-- The global object that a unit sees. -/
  globalObject : σ → UnitId → ObjectId
  /-- The class of an object. -/
  objectClass? : σ → ObjectId → Option String
  /-- The names of an object's properties, in order. -/
  propertyNames : σ → ObjectId → List String
  /-- The content of an object's property. -/
  property? : σ → ObjectId → String → Option Value
  /-- Defines or changes an object's property. -/
  setProperty : σ → ObjectId → String → Value → Except EngineError σ
  /-- Builds the value of a JSON document. -/
  importValue : σ → Json → σ × Value
  /-- Chooses the program to run. -/
  selectProgram : σ → String → σ

namespace Engine

variable {σ : Type} [Engine σ]

/-- Advances until there is an event, at most `fuel` times. -/
def resumeWithin (hooks : Hooks) : (fuel : Nat) → σ → Option (σ × Event)
  | 0, _ => none
  | fuel + 1, s =>
    match advance hooks s with
    | (next, some event) => some (next, event)
    | (next, none) => resumeWithin hooks fuel next

/-- Resuming in `s` stops in `t` for `event`. -/
def Resumes (hooks : Hooks) (s t : σ) (event : Event) : Prop :=
  ∃ fuel, resumeWithin hooks fuel s = some (t, event)

theorem resumeWithin_mono (hooks : Hooks) {fuel more : Nat} {s t : σ} {event : Event}
    (h : resumeWithin hooks fuel s = some (t, event)) (hle : fuel ≤ more) :
    resumeWithin hooks more s = some (t, event) := by
  induction fuel generalizing s more with
  | zero => simp [resumeWithin] at h
  | succ fuel ih =>
    obtain ⟨more, rfl⟩ : ∃ k, more = k + 1 := ⟨more - 1, by omega⟩
    simp only [resumeWithin] at h ⊢
    split at h
    · exact h
    · exact ih h (by omega)

/-- Resuming has one outcome. -/
theorem Resumes.unique {hooks : Hooks} {s t t' : σ} {event event' : Event}
    (h : Resumes hooks s t event) (h' : Resumes hooks s t' event') : t = t' ∧ event = event' := by
  obtain ⟨n, hn⟩ := h
  obtain ⟨m, hm⟩ := h'
  have h1 := resumeWithin_mono hooks hn (Nat.le_max_left n m)
  have h2 := resumeWithin_mono hooks hm (Nat.le_max_right n m)
  rw [h1] at h2
  simpa using h2

end Engine

end ScriptDebugger
