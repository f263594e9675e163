import ScriptDebugger.Engine.Value
/-!
# Hooks and events

What a debugger asks a running program to stop for, and what the program stopped for. Breakpoints
are kept by the engine itself.

## Main results

* `action_install_self`, `action_install_ne`, `action_remove_self` — the hook table as a finite
  map from frames to actions.
-/

namespace ScriptDebugger

/-- What a program stopped for. -/
inductive Event
  /-- A frame was pushed, and its first instruction has not run. -/
  | enterFrame (frame : FrameId)
  /-- A frame with a step hook is about to run its next instruction. -/
  | step (frame : FrameId)
  /-- A frame with a pop hook is about to leave the stack. -/
  | pop (frame : FrameId)
  /-- A frame is about to run an instruction that has a breakpoint. -/
  | breakpoint (frame : FrameId) (offset : Nat)
  /-- Nothing is left to run. -/
  | finished
  deriving DecidableEq, Repr

/-- What a hook on a frame waits for. -/
inductive HookAction
  /-- The next instruction of the frame. -/
  | step
  /-- The end of the frame. -/
  | pop
  deriving DecidableEq, Repr

/-- The hooks: one for the entry of any frame, and at most one for each frame. -/
structure Hooks where
  /-- Whether the entry of a frame is reported. -/
  onEnter : Bool := false
  /-- The hooked frames; each occurs at most once. -/
  actions : List (FrameId × HookAction) := []
  deriving DecidableEq, Repr

namespace Hooks

/-- No hooks. -/
def none : Hooks := {}

/-- The hook of a frame. -/
def action (hooks : Hooks) (frame : FrameId) : Option HookAction :=
  (hooks.actions.find? fun entry => entry.1 == frame).map Prod.snd

/-- Takes the hook off a frame. -/
def remove (hooks : Hooks) (frame : FrameId) : Hooks :=
  { hooks with actions := hooks.actions.filter fun entry => entry.1 != frame }

/-- Puts a hook on a frame, in the place of the one it has. -/
def install (hooks : Hooks) (frame : FrameId) (action : HookAction) : Hooks :=
  { hooks with actions := (frame, action) :: (hooks.remove frame).actions }

/-- Takes the hooks off all frames; the one for entries stays. -/
def clearFrames (hooks : Hooks) : Hooks := { hooks with actions := [] }

/-- Turns the hook for entries on or off. -/
def setOnEnter (hooks : Hooks) (onEnter : Bool) : Hooks := { hooks with onEnter }

/-- Whether there is no hook at all. -/
def isEmpty (hooks : Hooks) : Bool := !hooks.onEnter && hooks.actions.isEmpty

theorem action_remove_self (hooks : Hooks) (frame : FrameId) :
    (hooks.remove frame).action frame = Option.none := by
  simp [remove, action]

theorem action_install_self (hooks : Hooks) (frame : FrameId) (a : HookAction) :
    (hooks.install frame a).action frame = some a := by
  simp [install, action]

theorem action_remove_ne (hooks : Hooks) {frame other : FrameId} (h : other ≠ frame) :
    (hooks.remove frame).action other = hooks.action other := by
  simp only [remove, action, List.find?_filter]
  congr 2
  funext entry
  by_cases he : entry.1 = other
  · simp [he, h]
  · simp [he]

theorem action_install_ne (hooks : Hooks) {frame other : FrameId} (a : HookAction)
    (h : other ≠ frame) : (hooks.install frame a).action other = hooks.action other := by
  have : (frame == other) = false := by simpa using fun e => h e.symm
  simpa [install, action, this] using action_remove_ne hooks h

end Hooks

end ScriptDebugger
