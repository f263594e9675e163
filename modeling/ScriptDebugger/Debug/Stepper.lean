import ScriptDebugger.Engine.Interface
/-!
# Stepping

The stepper turns the events of an engine into stops, and commands to go on into hooks. A pause
begins with all hooks gone, so no hook of an earlier command can stop the program again. A step is
over when the hooked frame reaches another place in the source than the one where the pause began.

## Main results

* `pause_hooks` — a pause begins without hooks.
* `onEvent_finished` — the end of the program stops for nothing and leaves no hooks.
-/

namespace ScriptDebugger.Debug

/-- How a paused program goes on. -/
inductive RunMode
  /-- To the next breakpoint. -/
  | run
  /-- To the next statement of the paused frame. -/
  | over
  /-- To the next statement of the paused frame or the entry of any frame. -/
  | into
  /-- To the frame that the paused one returns to. -/
  | out
  deriving DecidableEq, Repr

/-- Why a program stopped. -/
inductive StopReason
  /-- Its first frame was entered. -/
  | loaded
  /-- A step is over. -/
  | step
  /-- There is a breakpoint. -/
  | breakpoint (offset : Nat)
  deriving DecidableEq, Repr

/-- A stop. -/
structure Stop where
  /-- The frame that is paused. -/
  frame : FrameId
  /-- Why. -/
  reason : StopReason
  deriving DecidableEq, Repr

/-- Where a frame stands in the source. -/
def locationOf {σ : Type} [Engine σ] (engine : σ) (frame : FrameId) : Option Location :=
  (Engine.frame? engine frame).bind fun info =>
    info.unit.bind fun unit => Engine.location? engine unit info.offset

/-- The state of the stepper. -/
structure Stepper where
  /-- The frame that is paused; none while the program runs. -/
  paused : Option FrameId := none
  /-- The hooks that the engine runs under. The first frame is waited for from the start. -/
  hooks : Hooks := { onEnter := true }
  /-- Whether the first frame was seen. -/
  loaded : Bool := false
  /-- Where the last pause began. -/
  lastLocation : Option Location := none
  deriving DecidableEq, Repr

namespace Stepper

/-- The stepper before the program runs. -/
def initial : Stepper := {}

section

variable {σ : Type} [Engine σ]

/-- Begins a pause. -/
def pause (s : Stepper) (engine : σ) (frame : FrameId) (reason : StopReason) :
    Stepper × Option Stop :=
  ({ s with hooks := .none, paused := some frame, lastLocation := locationOf engine frame },
    some ⟨frame, reason⟩)

/-- The end of a hooked frame: its caller is hooked instead, or the entry of the next frame where it
has none. -/
def leave (s : Stepper) (engine : σ) (frame : FrameId) : Stepper :=
  let hooks := s.hooks.remove frame
  match (Engine.frame? engine frame).bind (·.older) with
  | some caller => { s with hooks := hooks.install caller .step }
  | none => { s with hooks := hooks.setOnEnter true }

/-- Takes an event of the engine, and tells whether it is a stop. -/
def onEvent (s : Stepper) (engine : σ) : Event → Stepper × Option Stop
  | .finished => ({ s with hooks := .none, paused := none }, none)
  | .enterFrame frame =>
    if !s.hooks.onEnter then (s, none)
    else if s.loaded then s.pause engine frame .step
    else { s with loaded := true }.pause engine frame .loaded
  | .step frame =>
    if s.hooks.action frame ≠ some .step then (s, none)
    else if locationOf engine frame = s.lastLocation then (s, none)
    else s.pause engine frame .step
  | .pop frame =>
    if s.hooks.action frame ≠ some .pop then (s, none) else (s.leave engine frame, none)
  | .breakpoint frame offset => s.pause engine frame (.breakpoint offset)

theorem pause_hooks (s : Stepper) (engine : σ) (frame : FrameId) (reason : StopReason) :
    (s.pause engine frame reason).1.hooks = .none := rfl

theorem onEvent_finished (s : Stepper) (engine : σ) :
    (s.onEvent engine .finished).1.hooks = .none ∧ (s.onEvent engine .finished).2 = none :=
  ⟨rfl, rfl⟩

end

/-- The hooks that a frame goes on under. -/
def hooksFor (frame : FrameId) : RunMode → Hooks
  | .run => .none
  | .over => Hooks.none.install frame .step
  | .into => (Hooks.none.install frame .step).setOnEnter true
  | .out => Hooks.none.install frame .pop

/-- Ends the pause; without one nothing changes. -/
def resume (s : Stepper) (mode : RunMode) : Stepper :=
  match s.paused with
  | none => s
  | some frame => { s with hooks := hooksFor frame mode, paused := none }

end Stepper

end ScriptDebugger.Debug
