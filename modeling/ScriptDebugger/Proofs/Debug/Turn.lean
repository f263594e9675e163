import ScriptDebugger.Debug.Agent
import ScriptDebugger.Proofs.Machine.Control
/-!
# The turns of a run

A running debugger goes round: the machine takes a small step, and the event is a stop or not. One
turn takes the machine one tick further. The report of a frame's end is no tick by itself; it
belongs to one turn with the step behind it, which takes the frame off the stack.

## Main results

* `turn_of_not_finished` — as long as the program has not ended, there is a next turn.
* `runWithin_of_turn`, `runWithin_of_stop` — a run is its first turn and the run behind it.
* `runWithin_of_turns` — so is what stands behind several turns.
* `runWithin_induct` — a run of any program, by its first small step.
* `runWithin_cases` — what a run comes to.
* `locationOf_top` — where the running frame stands.
-/

namespace ScriptDebugger.Debug

open Machine (State Activation)

/-! ## What the debugger sees -/

/-- The running frame stands where its next instruction does. -/
theorem locationOf_top {s : State} {top : Activation} {below : List Activation}
    (hstack : s.stack = top :: below) :
    locationOf s top.id = (s.program.instruction? top.unit top.pc).map (·.location) := by
  have hframe : Engine.frame? s top.id = State.frameInfo? s.program top.id s.stack := rfl
  rw [locationOf, hframe, hstack, State.frameInfo?, if_pos rfl]
  rfl

theorem locationOf_of_instruction {s : State} {top : Activation} {below : List Activation}
    {i : Source.Instruction} (hstack : s.stack = top :: below)
    (hinstr : s.program.instruction? top.unit top.pc = some i) :
    locationOf s top.id = some i.location := by
  rw [locationOf_top hstack, hinstr]
  rfl

/-- The caller of the running frame is the frame below. -/
theorem older_top {s : State} (top : Activation) {below : List Activation}
    (hstack : s.stack = top :: below) :
    (Engine.frame? s top.id).bind (·.older) = below.head?.map (·.id) := by
  have hframe : Engine.frame? s top.id = State.frameInfo? s.program top.id s.stack := rfl
  rw [hframe, hstack, State.frameInfo?, if_pos rfl]
  rfl

section

variable {σ : Type} [Engine σ]

/-- Stepping decides about stops. -/
theorem onEvent_snd (c : Context) (engine : σ) (event : Event) :
    (c.onEvent engine event).2 = (c.stepper.onEvent engine event).2 := by
  unfold Context.onEvent
  rcases c.stepper.onEvent engine event with ⟨stepper, _ | stop⟩ <;> rfl

theorem onEvent_stepper (c : Context) (engine : σ) (event : Event) :
    (c.onEvent engine event).1.stepper = (c.stepper.onEvent engine event).1 := by
  unfold Context.onEvent
  rcases c.stepper.onEvent engine event with ⟨stepper, _ | stop⟩ <;> rfl

theorem stepper_of_onEvent {c c' : Context} {engine : σ} {event : Event} {stop : Option Stop}
    (h : c.onEvent engine event = (c', stop)) :
    c'.stepper = (c.stepper.onEvent engine event).1 ∧
      stop = (c.stepper.onEvent engine event).2 := by
  rw [← onEvent_stepper, ← onEvent_snd, h]
  exact ⟨rfl, rfl⟩

/-- The end of a frame is no stop. -/
theorem onEvent_pop (c : Context) (engine : σ) (frame : FrameId) :
    ∃ c', c.onEvent engine (.pop frame) = (c', none) := by
  refine ⟨(c.onEvent engine (.pop frame)).1, Prod.ext rfl ?_⟩
  rw [onEvent_snd, Stepper.onEvent]
  split <;> rfl

end

/-! ## Turns -/

/-- A turn from `s` to the next tick: the debugger behind it, and the stop if there is one. -/
inductive Turn (c : Context) (s : State) : Context → Option Stop → Prop
  /-- The small step has no event. -/
  | silent (hadvance : s.advance c.hooks = (s.tick, none)) : Turn c s c none
  /-- The small step has an event. -/
  | event {event : Event} {c' : Context} {stop : Option Stop}
      (hadvance : s.advance c.hooks = (s.tick, some event)) (hfinish : event ≠ .finished)
      (hpop : ∀ frame, event ≠ .pop frame)
      (hevent : c.onEvent s.tick event = (c', stop)) : Turn c s c' stop
  /-- The end of a frame is reported, and the frame leaves the stack. -/
  | pop {frame : FrameId} {next : State} {c' : Context}
      (hadvance : s.advance c.hooks = (next, some (.pop frame)))
      (hbehind : ∀ hooks, next.advance hooks = (s.tick, none))
      (hevent : c.onEvent next (.pop frame) = (c', none)) : Turn c s c' none

/-- A program that has ended stays as it is. -/
theorem advance_finished {s : State} (h : s.isFinished = true) (hooks : Hooks) :
    s.advance hooks = (s, some .finished) := by
  simp only [State.isFinished, Bool.and_eq_true, List.isEmpty_iff] at h
  obtain ⟨⟨hstarted, hstack⟩, hdeferred⟩ := h
  simp [State.advance, hstarted, hstack, State.advanceIdle, hdeferred]

/-- As long as the program has not ended, there is a next turn. -/
theorem turn_of_not_finished (c : Context) {s : State} (hopen : s.isFinished = false) :
    ∃ c' stop, Turn c s c' stop := by
  rcases hadvance : s.advance c.hooks with ⟨t, event⟩
  have hstep := State.step_of_advance hadvance
  by_cases hpop : ∃ frame, event = some (.pop frame)
  · obtain ⟨frame, rfl⟩ := hpop
    obtain ⟨c', hevent⟩ := onEvent_pop c t frame
    exact ⟨c', none, .pop hadvance (fun hooks => hstep.advance_of_pop hooks) hevent⟩
  · have hpop : ∀ frame, event ≠ some (.pop frame) := fun frame h => hpop ⟨frame, h⟩
    obtain rfl := hstep.eq_tick hpop
    cases event with
    | none => exact ⟨c, none, .silent hadvance⟩
    | some event =>
        have hfinish : event ≠ .finished := by
          rintro rfl
          obtain ⟨-, hstarted, hstack, hdeferred⟩ := hstep.finish_inv
          simp [State.isFinished, hstarted, hstack, hdeferred] at hopen
        have hpop : ∀ frame, event ≠ .pop frame := fun frame h => hpop frame (congrArg some h)
        rcases hevent : c.onEvent s.tick event with ⟨c', stop⟩
        exact ⟨c', stop, .event hadvance hfinish hpop hevent⟩

section

variable {c : Context} {s : State} {frame : FrameId}

/-- A breakpoint is a stop. -/
theorem Turn.of_breakpoint {offset : Nat}
    (hadvance : s.advance c.hooks = (s.tick, some (.breakpoint frame offset))) :
    ∃ c', Turn c s c' (some ⟨frame, .breakpoint offset⟩) := by
  rcases hevent : c.onEvent s.tick (.breakpoint frame offset) with ⟨c', stop⟩
  obtain ⟨-, hstop⟩ := stepper_of_onEvent hevent
  obtain rfl : stop = some ⟨frame, .breakpoint offset⟩ := hstop
  exact ⟨c', .event hadvance nofun nofun hevent⟩

/-- The step of a hooked frame is a stop at another place than the remembered one. -/
theorem Turn.of_step (hadvance : s.advance c.hooks = (s.tick, some (.step frame)))
    (hhook : c.hooks.action frame = some .step)
    (hmoved : locationOf s.tick frame ≠ c.stepper.lastLocation) :
    ∃ c', Turn c s c' (some ⟨frame, .step⟩) := by
  rcases hevent : c.onEvent s.tick (.step frame) with ⟨c', stop⟩
  obtain ⟨-, hstop⟩ := stepper_of_onEvent hevent
  rw [Stepper.onEvent, if_neg (fun hnot => hnot hhook), if_neg hmoved] at hstop
  obtain rfl : stop = some ⟨frame, .step⟩ := hstop
  exact ⟨c', .event hadvance nofun nofun hevent⟩

/-- At the remembered place it is none. -/
theorem Turn.of_stay (hadvance : s.advance c.hooks = (s.tick, some (.step frame)))
    (hstay : locationOf s.tick frame = c.stepper.lastLocation) : Turn c s c none := by
  have hnone : c.stepper.onEvent s.tick (.step frame) = (c.stepper, none) := by
    rw [Stepper.onEvent, if_pos hstay, ite_self]
  have hevent : c.onEvent s.tick (.step frame) = (c, none) := by
    unfold Context.onEvent
    rw [hnone]
  exact .event hadvance nofun nofun hevent

/-- The entry of a frame is a stop when it is waited for. -/
theorem Turn.of_enter (hadvance : s.advance c.hooks = (s.tick, some (.enterFrame frame)))
    (honEnter : c.hooks.onEnter = true) (hloaded : c.stepper.loaded = true) :
    ∃ c', Turn c s c' (some ⟨frame, .step⟩) := by
  rcases hevent : c.onEvent s.tick (.enterFrame frame) with ⟨c', stop⟩
  obtain ⟨-, hstop⟩ := stepper_of_onEvent hevent
  rw [Stepper.onEvent, if_neg (by simpa [Context.hooks] using honEnter), if_pos hloaded] at hstop
  obtain rfl : stop = some ⟨frame, .step⟩ := hstop
  exact ⟨c', .event hadvance nofun nofun hevent⟩

end

/-! ## Runs -/

/-- A run takes one small step, and goes on unless that one is its last. -/
theorem runWithin_succ {σ : Type} [Engine σ] (fuel : Nat) (c : Context) (s : σ) :
    c.runWithin (fuel + 1) s =
      match Engine.advance c.hooks s with
      | (next, none) => c.runWithin fuel next
      | (next, some .finished) => some (c, next, none)
      | (next, some event) =>
        match c.onEvent next event with
        | (c', some stop) => some (c', next, some stop)
        | (c', none) => c'.runWithin fuel next := rfl

theorem runWithin_finished (c : Context) {s : State} (h : s.isFinished = true) (fuel : Nat) :
    c.runWithin (fuel + 1) s = some (c, s, none) := by
  have hadvance : Engine.advance c.hooks s = s.advance c.hooks := rfl
  rw [runWithin_succ, hadvance, advance_finished h]

/-- A turn that stops ends the run. -/
theorem runWithin_of_stop {c c' : Context} {s : State} {stop : Stop}
    (h : Turn c s c' (some stop)) (fuel : Nat) :
    c.runWithin (fuel + 1) s = some (c', s.tick, some stop) := by
  have hengine : Engine.advance c.hooks s = s.advance c.hooks := rfl
  cases h with
  | event hadvance hfinish hpop hevent =>
      rename_i event
      rw [runWithin_succ, hengine, hadvance]
      cases event with
      | finished => exact absurd rfl hfinish
      | _ => simp only [hevent]

/-- Behind a turn that does not stop, the run goes on. -/
theorem runWithin_of_turn {c c' : Context} {s : State} (h : Turn c s c' none) :
    ∃ used, 0 < used ∧ ∀ fuel, c.runWithin (fuel + used) s = c'.runWithin fuel s.tick := by
  have hengine : Engine.advance c.hooks s = s.advance c.hooks := rfl
  cases h with
  | silent hadvance =>
      refine ⟨1, Nat.one_pos, fun fuel => ?_⟩
      rw [runWithin_succ, hengine, hadvance]
  | event hadvance hfinish hpop hevent =>
      rename_i event
      refine ⟨1, Nat.one_pos, fun fuel => ?_⟩
      rw [runWithin_succ, hengine, hadvance]
      cases event with
      | finished => exact absurd rfl hfinish
      | _ => simp only [hevent]
  | pop hadvance hbehind hevent =>
      rename_i frame next
      refine ⟨2, Nat.two_pos, fun fuel => ?_⟩
      have hnext : Engine.advance c'.hooks next = next.advance c'.hooks := rfl
      rw [runWithin_succ, hengine, hadvance]
      simp only [hevent]
      rw [runWithin_succ, hnext, hbehind]

/-- Behind some turns that neither stop nor change the debugger, the run goes on. -/
theorem runWithin_of_turns {c : Context} {s : State} {n : Nat}
    (h : ∀ k, k < n → Turn c (s.after k) c none) :
    ∃ used, ∀ fuel, c.runWithin (fuel + used) s = c.runWithin fuel (s.after n) := by
  induction n with
  | zero => exact ⟨0, fun _ => rfl⟩
  | succ n ih =>
      obtain ⟨used, hused⟩ := ih fun k hk => h k (Nat.lt_succ_of_lt hk)
      obtain ⟨more, -, hmore⟩ := runWithin_of_turn (h n (Nat.lt_succ_self n))
      refine ⟨more + used, fun fuel => ?_⟩
      rw [← Nat.add_assoc, hused, hmore, State.after]

/-- More fuel does not change what a run comes to. -/
theorem runWithin_mono {σ : Type} [Engine σ] {fuel more : Nat} {c : Context} {s : σ}
    {result : Context × σ × Option Stop} (h : c.runWithin fuel s = some result)
    (hle : fuel ≤ more) : c.runWithin more s = some result := by
  induction fuel generalizing c s more with
  | zero => cases h
  | succ fuel ih =>
      obtain ⟨more, rfl⟩ : ∃ k, more = k + 1 := ⟨more - 1, by omega⟩
      rw [runWithin_succ] at h ⊢
      generalize Engine.advance c.hooks s = step at h ⊢
      rcases step with ⟨next, _ | event⟩
      · exact ih h (by omega)
      · cases event with
        | finished => exact h
        | _ =>
            simp only at h ⊢
            generalize c.onEvent next _ = decision at h ⊢
            rcases decision with ⟨c', _ | stop⟩
            · exact ih h (by omega)
            · exact h

/-- What its first small step shows of a run, given the run behind it, holds of every run that comes
to the same end. -/
theorem runWithin_induct {σ : Type} [Engine σ] {c' : Context} {t : σ} {stop : Option Stop}
    {P : Context → σ → Prop}
    (hquiet : ∀ c s next, Engine.advance c.hooks s = (next, none) → P c next → P c s)
    (hend : ∀ s, stop = none → Engine.advance c'.hooks s = (t, some .finished) → P c' s)
    (hevent : ∀ c d s next event, event ≠ .finished →
      Engine.advance c.hooks s = (next, some event) → c.onEvent next event = (d, none) →
      P d next → P c s)
    (hstop : ∀ c s event reason, event ≠ .finished → stop = some reason →
      Engine.advance c.hooks s = (t, some event) → c.onEvent t event = (c', some reason) → P c s)
    {fuel : Nat} {c : Context} {s : σ} (h : c.runWithin fuel s = some (c', t, stop)) : P c s := by
  induction fuel generalizing c s with
  | zero => cases h
  | succ fuel ih =>
      rw [runWithin_succ] at h
      rcases hadvance : Engine.advance c.hooks s with ⟨next, _ | event⟩
      · rw [hadvance] at h
        exact hquiet c s next hadvance (ih h)
      · rw [hadvance] at h
        by_cases hfinished : event = .finished
        · subst hfinished
          obtain ⟨rfl, rfl, rfl⟩ : c = c' ∧ next = t ∧ none = stop := by simpa using h
          exact hend s rfl hadvance
        · rcases hdecide : c.onEvent next event with ⟨d, _ | reason⟩
          · simp only [hdecide] at h
            exact hevent c d s next event hfinished hadvance hdecide (ih h)
          · simp only [hdecide] at h
            obtain ⟨rfl, rfl, rfl⟩ : d = c' ∧ next = t ∧ some reason = stop := by simpa using h
            exact hstop c s event reason hfinished rfl hadvance hdecide

/-- A run whose first turn stops comes to that stop. -/
theorem Turn.eq_of_stop {fuel : Nat} {c c' : Context} {s : State} {stop : Stop}
    {result : Context × State × Option Stop} (hturn : Turn c s c' (some stop))
    (h : c.runWithin fuel s = some result) : result = (c', s.tick, some stop) := by
  have hstop := runWithin_of_stop hturn fuel
  rw [runWithin_mono h (Nat.le_succ fuel)] at hstop
  exact Option.some.inj hstop

/-- A run whose first turn does not stop comes to what the run behind it comes to. -/
theorem Turn.rest {fuel : Nat} {c c' : Context} {s : State}
    {result : Context × State × Option Stop} (hturn : Turn c s c' none)
    (h : c.runWithin fuel s = some result) :
    ∃ rest, rest < fuel ∧ c'.runWithin rest s.tick = some result := by
  obtain ⟨used, hused, hrest⟩ := runWithin_of_turn hturn
  have hfuel : used ≤ fuel := by
    refine Nat.le_of_not_lt fun hlt => ?_
    have hnone := hrest 0
    rw [Nat.zero_add, runWithin_mono h (Nat.le_of_lt hlt)] at hnone
    cases hnone
  obtain ⟨rest, rfl⟩ : ∃ rest, fuel = rest + used := ⟨fuel - used, by omega⟩
  refine ⟨rest, by omega, ?_⟩
  rw [← hrest]
  exact h

/-- What a run comes to: the program has ended, or the first turn stops, or the run behind it comes
to the same. -/
theorem runWithin_cases {fuel : Nat} {c c' : Context} {s t : State} {stop : Option Stop}
    (h : c.runWithin fuel s = some (c', t, stop)) :
    (s.isFinished = true ∧ c' = c ∧ t = s ∧ stop = none) ∨
      (∃ reason, stop = some reason ∧ t = s.tick ∧ Turn c s c' (some reason)) ∨
      ∃ next rest, Turn c s next none ∧ rest < fuel ∧
        next.runWithin rest s.tick = some (c', t, stop) := by
  cases hopen : s.isFinished with
  | true =>
      have hend := runWithin_finished c hopen fuel
      rw [runWithin_mono h (Nat.le_succ fuel)] at hend
      obtain ⟨rfl, rfl, rfl⟩ : c' = c ∧ t = s ∧ stop = none := by simpa using hend
      exact Or.inl ⟨rfl, rfl, rfl, rfl⟩
  | false =>
      obtain ⟨next, decision, hturn⟩ := turn_of_not_finished c hopen
      cases decision with
      | some reason =>
          obtain ⟨rfl, rfl, rfl⟩ : c' = next ∧ t = s.tick ∧ stop = some reason := by
            simpa using hturn.eq_of_stop h
          exact Or.inr (Or.inl ⟨reason, rfl, rfl, hturn⟩)
      | none =>
          obtain ⟨rest, hlt, hrest⟩ := hturn.rest h
          exact Or.inr (Or.inr ⟨next, rest, hturn, hlt, hrest⟩)

end ScriptDebugger.Debug
