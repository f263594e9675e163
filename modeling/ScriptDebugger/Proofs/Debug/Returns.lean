import ScriptDebugger.Engine.Snapshot
import ScriptDebugger.Proofs.Debug.HookDiscipline
/-!
# Stepping out of a frame

A step out of a frame waits for the end of the frame, and then for a step of its caller. That step is
held against the place where the pause began, as all steps are, though it is a place of another
frame. Where the frames share their code, as in a recursion, the caller can stand at the very place
again: then the program does not stop there, but where the caller is found at another place.

## Main results

* `calls_ignored` — what a hooked stepper passes over.
* `step_out_stops_iff_moved` — whether a step out stops in the caller.
* `step_out_misses_caller` — a recursion whose caller is missed.
-/

namespace ScriptDebugger.Debug.Stepper

variable {σ : Type} [Engine σ]

/-- Makes calls one after another, and lists the stops that they report. -/
def calls (s : Stepper) : List (Call σ) → Stepper × List Stop
  | [] => (s, [])
  | call :: rest =>
    (((s.take call).1.calls rest).1, (s.take call).2.toList ++ ((s.take call).1.calls rest).2)

theorem calls_append (s : Stepper) (front behind : List (Call σ)) :
    s.calls (front ++ behind) =
      (((s.calls front).1.calls behind).1,
        (s.calls front).2 ++ ((s.calls front).1.calls behind).2) := by
  induction front generalizing s with
  | nil => rfl
  | cons call front ih =>
      simp only [List.cons_append, calls, ih, List.append_assoc]

/-- An event that a hook on a frame is for. A step counts if the frame has left the place where the
pause began. -/
def Awaited (place : Option Location) (frame : FrameId) : HookAction → σ → Event → Prop
  | .step, engine, event => event = .step frame ∧ locationOf engine frame ≠ place
  | .pop, _, event => event = .pop frame

/-- A call that is of no account while the program runs under a hook: it is no breakpoint, not the
end of the program, and not what the hook is for. -/
def Ignored (awaited : σ → Event → Prop) : Call σ → Prop
  | .resume _ => True
  | .event engine event =>
    (∀ frame offset, event ≠ .breakpoint frame offset) ∧ event ≠ .finished ∧
      ¬awaited engine event

/-- A stepper of a running program with a hook on one frame alone. -/
structure Awaits (s : Stepper) (frame : FrameId) (action : HookAction) : Prop where
  running : s.paused = none
  hooks : s.hooks = Hooks.none.install frame action

theorem action_install_none (frame other : FrameId) (action : HookAction) :
    (Hooks.none.install frame action).action other = if other = frame then some action else none := by
  split
  · rename_i hsame
    rw [hsame, Hooks.action_install_self]
  · rename_i hother
    rw [Hooks.action_install_ne _ _ hother, action_none]

section

variable {s : Stepper} {frame : FrameId} {action : HookAction}

theorem take_ignored (h : s.Awaits frame action) {call : Call σ}
    (hcall : Ignored (Awaited s.lastLocation frame action) call) : s.take call = (s, none) := by
  cases call with
  | resume mode => simp only [take, Stepper.resume, h.running]
  | event engine event =>
      obtain ⟨hbreakpoint, hfinished, hawaited⟩ := hcall
      cases event with
      | finished => exact absurd rfl hfinished
      | breakpoint frame offset => exact absurd rfl (hbreakpoint frame offset)
      | enterFrame entered =>
          have henter : s.hooks.onEnter = false := by rw [h.hooks]; rfl
          simp [take, onEvent, henter]
      | step stepped =>
          simp only [take, onEvent, h.hooks, action_install_none]
          by_cases hsame : stepped = frame
          · subst hsame
            cases action with
            | pop => simp
            | step =>
                have hplace : locationOf engine stepped = s.lastLocation :=
                  Decidable.byContradiction fun hne => hawaited ⟨rfl, hne⟩
                simp [hplace]
          · simp [hsame]
      | pop popped =>
          simp only [take, onEvent, h.hooks, action_install_none]
          by_cases hsame : popped = frame
          · subst hsame
            cases action with
            | step => simp
            | pop => exact absurd rfl hawaited
          · simp [hsame]

/-- What a hooked stepper passes over leaves it as it is. -/
theorem calls_ignored (h : s.Awaits frame action) {calls : List (Call σ)}
    (hcalls : ∀ call ∈ calls, Ignored (Awaited s.lastLocation frame action) call) :
    s.calls calls = (s, []) := by
  induction calls with
  | nil => rfl
  | cons call calls ih =>
      have hfirst := take_ignored h (hcalls call (List.mem_cons_self ..))
      have hrest := ih fun call hcall => hcalls call (List.mem_cons_of_mem _ hcall)
      simp only [Stepper.calls, hfirst, hrest]
      rfl

/-- The end of the frame puts the hook on its caller. -/
theorem take_pop (h : s.Awaits frame .pop) {leaving : σ} {caller : FrameId}
    (hcaller : (Engine.frame? leaving frame).bind (·.older) = some caller) :
    s.take (.event leaving (.pop frame)) =
      ({ s with hooks := Hooks.none.install caller .step }, none) := by
  have hremoved : s.hooks.remove frame = .none := by rw [h.hooks, install_remove]
  have hleft : s.leave leaving frame = { s with hooks := Hooks.none.install caller .step } := by
    simp only [leave, hcaller, hremoved]
  simp [take, onEvent, h.hooks, action_install_none, hleft]

/-- The step of a hooked frame. -/
theorem take_step_snd (h : s.Awaits frame .step) (now : σ) :
    (s.take (.event now (.step frame))).2 =
      if locationOf now frame = s.lastLocation then none else some ⟨frame, .step⟩ := by
  simp only [take, onEvent, h.hooks, action_install_none, ↓reduceIte, ne_eq, not_true_eq_false]
  split
  · rfl
  · rfl

end

/-- Every stop is the beginning of a pause. -/
theorem onEvent_of_stop {s : Stepper} {engine : σ} {event : Event} {stop : Stop}
    (hstop : (s.onEvent engine event).2 = some stop) :
    ∃ loaded, s.onEvent engine event =
      (⟨some stop.frame, .none, loaded, locationOf engine stop.frame⟩, some stop) := by
  have hreacts := reacts s engine event
  generalize s.onEvent engine event = result at hreacts hstop ⊢
  cases hreacts with
  | ignored => cases hstop
  | finished => cases hstop
  | left => cases hstop
  | loaded =>
      obtain rfl := Option.some.inj hstop
      exact ⟨true, rfl⟩
  | stopped =>
      obtain rfl := Option.some.inj hstop
      exact ⟨s.loaded, rfl⟩

/-- Out of a pause the program is told to step out; the paused frame ends and has a caller. Then the
program stops as soon as the caller steps at another place than the one where the pause began, and
a step of the caller at that place is passed over. -/
theorem step_out_stops_iff_moved {s : Stepper} {engine leaving : σ} {event : Event} {stop : Stop}
    {caller : FrameId} {between behind : List (Call σ)}
    (hstop : (s.onEvent engine event).2 = some stop)
    (hbetween : ∀ call ∈ between,
      Ignored (Awaited (locationOf engine stop.frame) stop.frame .pop) call)
    (hcaller : (Engine.frame? leaving stop.frame).bind (·.older) = some caller)
    (hbehind : ∀ call ∈ behind,
      Ignored (Awaited (locationOf engine stop.frame) caller .step) call) (now : σ) :
    (s.calls (.event engine event :: .resume .out ::
        (between ++ .event leaving (.pop stop.frame) ::
          (behind ++ [.event now (.step caller)])))).2 =
      if locationOf now caller = locationOf engine stop.frame then [stop]
      else [stop, ⟨caller, .step⟩] := by
  obtain ⟨loaded, hevent⟩ := onEvent_of_stop hstop
  -- The stepper behind the command, and the one behind the end of the frame.
  let out : Stepper :=
    ⟨none, Hooks.none.install stop.frame .pop, loaded, locationOf engine stop.frame⟩
  let back : Stepper :=
    ⟨none, Hooks.none.install caller .step, loaded, locationOf engine stop.frame⟩
  have hout : out.Awaits stop.frame .pop := ⟨rfl, rfl⟩
  have hback : back.Awaits caller .step := ⟨rfl, rfl⟩
  have hpop : out.take (.event leaving (.pop stop.frame)) = (back, none) := take_pop hout hcaller
  have hquiet : out.calls between = (out, []) := calls_ignored hout hbetween
  have hstay : back.calls behind = (back, []) := calls_ignored hback hbehind
  have hrest : (out.calls (between ++ .event leaving (.pop stop.frame) ::
      (behind ++ [.event now (.step caller)]))).2 =
      (back.take (.event now (.step caller))).2.toList := by
    simp only [calls_append, calls, hquiet, hpop, hstay, Option.toList_none, List.nil_append,
      List.append_nil]
  have hfirst : s.take (.event engine event) =
      (⟨some stop.frame, .none, loaded, locationOf engine stop.frame⟩, some stop) := hevent
  have hcommand : (⟨some stop.frame, .none, loaded, locationOf engine stop.frame⟩ : Stepper).take
      (.resume .out : Call σ) = (out, none) := rfl
  rw [calls, hfirst, calls, hcommand, hrest, take_step_snd hback]
  show [stop] ++ ([] ++ (if _ then none else some ⟨caller, .step⟩ : Option Stop).toList) = _
  split
  · rfl
  · rfl

/-- A recursion at rest: the newer frame stands at the second statement of a function, and was
called from the older one, which stands at this offset of the same function. -/
def recursion (offset : Nat) : Snapshot where
  topUnits := [⟨1⟩]
  globalId := ⟨1⟩
  units := [(⟨1⟩, ⟨none, [], [⟨1, 0⟩, ⟨2, 0⟩]⟩)]
  frames := [(⟨1⟩, ⟨⟨some ⟨1⟩, offset, "call", none, none, none, none⟩, [], []⟩),
    (⟨2⟩, ⟨⟨some ⟨1⟩, 1, "call", none, none, some ⟨1⟩, none⟩, [], []⟩)]
  objects := []

/-- The stepper of a program that was told to step in when it was loaded. -/
def enteringRecursion : Stepper :=
  (Stepper.initial.calls [.event (recursion 1) (.enterFrame ⟨1⟩), .resume .into]).1

/-- The caller steps at the first statement, and the program stops there. -/
theorem step_out_stops_iff_moved_recursion :
    (enteringRecursion.onEvent (recursion 1) (.enterFrame ⟨2⟩)).2 = some ⟨⟨2⟩, .step⟩ ∧
      (Engine.frame? (recursion 1) ⟨2⟩).bind (·.older) = some ⟨1⟩ ∧
      locationOf (recursion 0) ⟨1⟩ ≠ locationOf (recursion 1) ⟨2⟩ ∧
      (enteringRecursion.calls [.event (recursion 1) (.enterFrame ⟨2⟩), .resume .out,
        .event (recursion 1) (.step ⟨1⟩), .event (recursion 1) (.pop ⟨2⟩),
        .event (recursion 1) (.step ⟨1⟩), .event (recursion 0) (.step ⟨1⟩)]).2 =
          [⟨⟨2⟩, .step⟩, ⟨⟨1⟩, .step⟩] := by
  have hstop : (enteringRecursion.onEvent (recursion 1) (.enterFrame ⟨2⟩)).2 =
      some ⟨⟨2⟩, .step⟩ := by decide
  have hcaller : (Engine.frame? (recursion 1) ⟨2⟩).bind (·.older) = some ⟨1⟩ := by decide
  have hmoved : locationOf (recursion 0) ⟨1⟩ ≠ locationOf (recursion 1) ⟨2⟩ := by decide
  have hbetween : ∀ call ∈ [Call.event (recursion 1) (.step ⟨1⟩)],
      Ignored (Awaited (locationOf (recursion 1) ⟨2⟩) ⟨2⟩ .pop) call := by
    simp [Ignored, Awaited]
  have hbehind : ∀ call ∈ [Call.event (recursion 1) (.step ⟨1⟩)],
      Ignored (Awaited (locationOf (recursion 1) ⟨2⟩) ⟨1⟩ .step) call := by
    have hsame : locationOf (recursion 1) ⟨1⟩ = locationOf (recursion 1) ⟨2⟩ := by decide
    simp [Ignored, Awaited, hsame]
  refine ⟨hstop, hcaller, hmoved, ?_⟩
  exact (step_out_stops_iff_moved hstop hbetween hcaller hbehind (recursion 0)).trans
    (if_neg hmoved)

/-- The caller steps at the second statement, where the pause in the called frame began, and the
program does not stop. -/
theorem step_out_misses_caller :
    (enteringRecursion.onEvent (recursion 1) (.enterFrame ⟨2⟩)).2 = some ⟨⟨2⟩, .step⟩ ∧
      (Engine.frame? (recursion 1) ⟨2⟩).bind (·.older) = some ⟨1⟩ ∧
      (enteringRecursion.calls [.event (recursion 1) (.enterFrame ⟨2⟩), .resume .out,
        .event (recursion 1) (.pop ⟨2⟩), .event (recursion 1) (.step ⟨1⟩)]).2 =
          [⟨⟨2⟩, .step⟩] := by
  decide

end ScriptDebugger.Debug.Stepper
