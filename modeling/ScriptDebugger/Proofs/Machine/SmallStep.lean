import ScriptDebugger.Machine.Inspect
/-!
# The cases of a small step

`State.advance` finds out by nested tests what a small step does. `Step` is the same function as a
relation with one rule for each thing that can happen, so that an invariant is proved by eight
cases and never by opening `advance`.

The hooks and the breakpoints select the events. Where the program goes they do not touch: a step
leads where `tick`, the step under no hooks, leads as well. The one exception is the report of a
frame's end, which leaves the frame on the stack for one step more; the step behind it makes up for
that.

## Main results

* `step_advance` — every small step follows a rule of `Step`.
* `Step.eq_tick` — without the report of an end, a step under hooks is the step under none.
* `Step.advance_of_pop` — behind such a report, the next step leads where the step under no hooks
  would have led, and stops for nothing.
* `tick_quiet` — under no hooks, no end is reported.
* `tick_withBreakpoints` — the breakpoints do not matter for where the program goes.
-/

namespace ScriptDebugger.Machine.State

open Source (Instruction)

/-! ## The rules -/

/-- The event at a boundary of the running frame: the breakpoint there, or else the frame's hook. -/
def boundaryEvent (hooks : Hooks) (s : State) (top : Activation) : Option Event :=
  if s.hasBreakpoint top.unit top.pc then some (.breakpoint top.id top.pc)
  else if hooks.action top.id = some .step then some (.step top.id)
  else none

/-- One small step: the state after it, and the event. -/
inductive Step (hooks : Hooks) (s : State) : State → Option Event → Prop
  /-- The program starts. -/
  | start (hstarted : s.started = false) : Step hooks s s.start none
  /-- Nothing is left to run. -/
  | finish (hstarted : s.started = true) (hstack : s.stack = []) (hdeferred : s.deferred = []) :
      Step hooks s s (some .finished)
  /-- The oldest deferred call starts. -/
  | unqueue {call : DeferredCall} {rest : List DeferredCall} (hstarted : s.started = true)
      (hstack : s.stack = []) (hdeferred : s.deferred = call :: rest) :
      Step hooks s (push { s with deferred := rest } call.unit call.args (some call.name)) none
  /-- The entry of a frame is passed. -/
  | enter {top : Activation} {below : List Activation} (hstarted : s.started = true)
      (hstack : s.stack = top :: below) (hentered : top.entered = false) :
      Step hooks s { s with stack := { top with entered := true } :: below }
        (if hooks.onEnter then some (.enterFrame top.id) else none)
  /-- The end of a frame is reported. -/
  | report {top : Activation} {below : List Activation} (hstarted : s.started = true)
      (hstack : s.stack = top :: below) (hentered : top.entered = true)
      (hend : s.program.instruction? top.unit top.pc = none) (hreported : top.popReported = false)
      (hhook : hooks.action top.id = some .pop) :
      Step hooks s { s with stack := { top with popReported := true } :: below }
        (some (.pop top.id))
  /-- A frame leaves the stack. -/
  | leave {top : Activation} {below : List Activation} (hstarted : s.started = true)
      (hstack : s.stack = top :: below) (hentered : top.entered = true)
      (hend : s.program.instruction? top.unit top.pc = none)
      (hsilent : top.popReported = true ∨ hooks.action top.id ≠ some .pop) :
      Step hooks s s.pop none
  /-- The boundary before an instruction is considered. -/
  | consider {top : Activation} {below : List Activation} {i : Instruction}
      (hstarted : s.started = true) (hstack : s.stack = top :: below)
      (hentered : top.entered = true)
      (hinstr : s.program.instruction? top.unit top.pc = some i)
      (hseen : top.boundarySeen = false) :
      Step hooks s { s with stack := { top with boundarySeen := true } :: below }
        (boundaryEvent hooks s top)
  /-- An instruction is executed. -/
  | execute {top : Activation} {below : List Activation} {i : Instruction}
      (hstarted : s.started = true) (hstack : s.stack = top :: below)
      (hentered : top.entered = true)
      (hinstr : s.program.instruction? top.unit top.pc = some i)
      (hseen : top.boundarySeen = true) :
      Step hooks s (s.perform top below i.op) none

/-- A step of the running frame follows a rule. -/
theorem step_advanceFrame (hooks : Hooks) {s : State} {top : Activation} {below : List Activation}
    (hstarted : s.started = true) (hstack : s.stack = top :: below) :
    Step hooks s (advanceFrame hooks s top below).1 (advanceFrame hooks s top below).2 := by
  unfold advanceFrame
  by_cases hentered : (!top.entered) = true
  · rw [if_pos hentered]
    exact .enter hstarted hstack (by simpa using hentered)
  rw [if_neg hentered]
  have hentered : top.entered = true := by simpa using hentered
  split
  · rename_i hend
    split
    · rename_i hreport
      simp only [Bool.and_eq_true, Bool.not_eq_true', beq_iff_eq] at hreport
      exact .report hstarted hstack hentered hend hreport.1 hreport.2
    · rename_i hreport
      simp only [Bool.and_eq_true, Bool.not_eq_true', beq_iff_eq, not_and] at hreport
      refine .leave hstarted hstack hentered hend ?_
      cases hpop : top.popReported with
      | true => exact Or.inl rfl
      | false => exact Or.inr (hreport hpop)
  · rename_i i hinstr
    split
    · rename_i hseen
      have hstep : Step hooks s _ _ :=
        .consider hstarted hstack hentered hinstr (by simpa using hseen)
      simpa only [boundaryEvent, beq_iff_eq] using hstep
    · rename_i hseen
      exact .execute hstarted hstack hentered hinstr (by simpa using hseen)

/-- Every small step follows a rule. -/
theorem step_advance (hooks : Hooks) (s : State) :
    Step hooks s (advance hooks s).1 (advance hooks s).2 := by
  cases hstarted : s.started with
  | false =>
      simp only [advance, hstarted, Bool.not_false, if_true]
      exact .start hstarted
  | true =>
      simp only [advance, hstarted, Bool.not_true, Bool.false_eq_true, if_false]
      cases hstack : s.stack with
      | cons top below => exact step_advanceFrame hooks hstarted hstack
      | nil =>
          cases hdeferred : s.deferred with
          | nil =>
              simp only [advanceIdle, hdeferred]
              exact .finish hstarted hstack hdeferred
          | cons call rest =>
              simp only [advanceIdle, hdeferred]
              exact .unqueue hstarted hstack hdeferred

theorem step_of_advance {hooks : Hooks} {s t : State} {event : Option Event}
    (h : advance hooks s = (t, event)) : Step hooks s t event := by
  have hstep := step_advance hooks s
  rw [h] at hstep
  exact hstep

/-! ## The run under no hooks -/

/-- One small step under no hooks. -/
def tick (s : State) : State := (advance .none s).1

/-- The state after some ticks. -/
def after (s : State) : Nat → State
  | 0 => s
  | n + 1 => (s.after n).tick

theorem after_add (s : State) (m n : Nat) : s.after (m + n) = (s.after m).after n := by
  induction n with
  | zero => rfl
  | succ n ih => rw [← Nat.add_assoc, after, ih, after]

/-- The step under no hooks does what the rules say. -/
theorem tick_start {s : State} (h : s.started = false) : s.tick = s.start := by
  simp [tick, advance, h]

theorem tick_finish {s : State} (hstarted : s.started = true) (hstack : s.stack = [])
    (hdeferred : s.deferred = []) : s.tick = s := by
  simp [tick, advance, hstarted, hstack, advanceIdle, hdeferred]

theorem tick_unqueue {s : State} {call : DeferredCall} {rest : List DeferredCall}
    (hstarted : s.started = true) (hstack : s.stack = []) (hdeferred : s.deferred = call :: rest) :
    s.tick = push { s with deferred := rest } call.unit call.args (some call.name) := by
  simp [tick, advance, hstarted, hstack, advanceIdle, hdeferred]

section

variable {s : State} {top : Activation} {below : List Activation}

theorem tick_enter (hstarted : s.started = true) (hstack : s.stack = top :: below)
    (hentered : top.entered = false) :
    s.tick = { s with stack := { top with entered := true } :: below } := by
  simp [tick, advance, hstarted, hstack, advanceFrame, hentered]

theorem tick_leave (hstarted : s.started = true) (hstack : s.stack = top :: below)
    (hentered : top.entered = true) (hend : s.program.instruction? top.unit top.pc = none) :
    s.tick = s.pop := by
  simp [tick, advance, hstarted, hstack, advanceFrame, hentered, hend, Hooks.none, Hooks.action]

theorem tick_consider {i : Instruction} (hstarted : s.started = true)
    (hstack : s.stack = top :: below) (hentered : top.entered = true)
    (hinstr : s.program.instruction? top.unit top.pc = some i)
    (hseen : top.boundarySeen = false) :
    s.tick = { s with stack := { top with boundarySeen := true } :: below } := by
  simp [tick, advance, hstarted, hstack, advanceFrame, hentered, hinstr, hseen]

theorem tick_execute {i : Instruction} (hstarted : s.started = true)
    (hstack : s.stack = top :: below) (hentered : top.entered = true)
    (hinstr : s.program.instruction? top.unit top.pc = some i)
    (hseen : top.boundarySeen = true) : s.tick = s.perform top below i.op := by
  simp [tick, advance, hstarted, hstack, advanceFrame, hentered, hinstr, hseen]

end

/-- Without the report of a frame's end, a step under hooks is the step under none. -/
theorem Step.eq_tick {hooks : Hooks} {s t : State} {event : Option Event}
    (h : Step hooks s t event) (hpop : ∀ frame, event ≠ some (.pop frame)) : t = s.tick := by
  cases h with
  | start hstarted => exact (tick_start hstarted).symm
  | finish hstarted hstack hdeferred => exact (tick_finish hstarted hstack hdeferred).symm
  | unqueue hstarted hstack hdeferred => exact (tick_unqueue hstarted hstack hdeferred).symm
  | enter hstarted hstack hentered => exact (tick_enter hstarted hstack hentered).symm
  | report => exact absurd rfl (hpop _)
  | leave hstarted hstack hentered hend => exact (tick_leave hstarted hstack hentered hend).symm
  | consider hstarted hstack hentered hinstr hseen =>
      exact (tick_consider hstarted hstack hentered hinstr hseen).symm
  | execute hstarted hstack hentered hinstr hseen =>
      exact (tick_execute hstarted hstack hentered hinstr hseen).symm

/-- What is known where the end of a frame was reported. -/
theorem Step.pop_inv {hooks : Hooks} {s t : State} {frame : FrameId}
    (h : Step hooks s t (some (.pop frame))) :
    ∃ top below, s.started = true ∧ s.stack = top :: below ∧ top.entered = true ∧
      s.program.instruction? top.unit top.pc = none ∧ hooks.action top.id = some .pop ∧
      top.id = frame ∧ t = { s with stack := { top with popReported := true } :: below } := by
  generalize hevent : some (Event.pop frame) = event at h
  cases h with
  | report hstarted hstack hentered hend hreported hhook =>
      cases hevent
      exact ⟨_, _, hstarted, hstack, hentered, hend, hhook, rfl, rfl⟩
  | enter => split at hevent <;> cases hevent
  | consider =>
      simp only [boundaryEvent] at hevent
      split at hevent
      · cases hevent
      · split at hevent <;> cases hevent
  | _ => cases hevent

/-- Behind the report of a frame's end, the next step takes the frame off the stack whatever the
hooks are. -/
theorem Step.advance_of_pop {hooks : Hooks} {s t : State} {frame : FrameId}
    (h : Step hooks s t (some (.pop frame))) (hooks' : Hooks) :
    advance hooks' t = (s.tick, none) := by
  obtain ⟨top, below, hstarted, hstack, hentered, hend, -, -, rfl⟩ := h.pop_inv
  rw [tick_leave hstarted hstack hentered hend]
  simp [advance, hstarted, advanceFrame, hentered, hend, pop, hstack]

/-- The end of the program is reported where nothing is left, and changes nothing. -/
theorem Step.finish_inv {hooks : Hooks} {s t : State} (h : Step hooks s t (some .finished)) :
    t = s ∧ s.started = true ∧ s.stack = [] ∧ s.deferred = [] := by
  generalize hevent : some Event.finished = event at h
  cases h with
  | finish hstarted hstack hdeferred => exact ⟨rfl, hstarted, hstack, hdeferred⟩
  | enter => split at hevent <;> cases hevent
  | consider =>
      simp only [boundaryEvent] at hevent
      split at hevent
      · cases hevent
      · split at hevent <;> cases hevent
  | _ => cases hevent

/-! ## What never changes -/

theorem push_program (s : State) (unit : UnitId) (args : List Value) (callee : Option String) :
    (push s unit args callee).program = s.program := by
  unfold push
  split <;> rfl

theorem push_started (s : State) (unit : UnitId) (args : List Value) (callee : Option String) :
    (push s unit args callee).started = s.started := by
  unfold push
  split <;> rfl

theorem perform_program (s : State) (top : Activation) (below : List Activation)
    (op : Source.Op) : (perform s top below op).program = s.program := by
  cases op with
  | call name args =>
      simp only [perform]
      split
      · exact push_program _ _ _ _
      · rfl
  | defer name args =>
      simp only [perform]
      split <;> rfl
  | _ => rfl

theorem perform_started (s : State) (top : Activation) (below : List Activation)
    (op : Source.Op) : (perform s top below op).started = s.started := by
  cases op with
  | call name args =>
      simp only [perform]
      split
      · exact push_started _ _ _ _
      · rfl
  | defer name args =>
      simp only [perform]
      split <;> rfl
  | _ => rfl

/-- No step changes the program. -/
theorem Step.program_eq {hooks : Hooks} {s t : State} {event : Option Event}
    (h : Step hooks s t event) : t.program = s.program := by
  cases h with
  | start => exact push_program { s with started := true } _ _ _
  | @unqueue call rest => exact push_program { s with deferred := rest } _ _ _
  | execute => exact perform_program s _ _ _
  | _ => rfl

/-- Behind every step the program is started. -/
theorem Step.started {hooks : Hooks} {s t : State} {event : Option Event}
    (h : Step hooks s t event) : t.started = true := by
  cases h with
  | start => exact push_started { s with started := true } _ _ _
  | @unqueue call rest hstarted =>
      exact (push_started { s with deferred := rest } _ _ _).trans hstarted
  | execute hstarted => exact (perform_started s _ _ _).trans hstarted
  | _ => assumption

theorem tick_program (s : State) : s.tick.program = s.program :=
  (step_advance .none s).program_eq

theorem tick_started (s : State) : s.tick.started = true := (step_advance .none s).started

theorem after_program (s : State) (n : Nat) : (s.after n).program = s.program := by
  induction n with
  | zero => rfl
  | succ n ih => rw [after, tick_program, ih]

/-! ## Ends that were not reported -/

/-- No frame on the stack had its end reported. -/
def Quiet (s : State) : Prop := ∀ a ∈ s.stack, a.popReported = false

theorem quiet_cons {s : State} (top : Activation) {below : List Activation}
    (hstack : s.stack = top :: below) (htop : top.popReported = false)
    (hbelow : ∀ a ∈ below, a.popReported = false) : s.Quiet := by
  intro a ha
  rw [hstack] at ha
  rcases List.mem_cons.1 ha with rfl | ha
  · exact htop
  · exact hbelow a ha

theorem push_quiet {s : State} (h : s.Quiet) (unit : UnitId) (args : List Value)
    (callee : Option String) : (push s unit args callee).Quiet := by
  unfold push
  split
  · exact h
  · exact quiet_cons _ rfl rfl h

theorem perform_quiet {s : State} {top : Activation} {below : List Activation}
    (htop : top.popReported = false) (hbelow : ∀ a ∈ below, a.popReported = false)
    (op : Source.Op) : (perform s top below op).Quiet := by
  cases op with
  | call name args =>
      simp only [perform]
      split
      · exact push_quiet (quiet_cons { top with awaitingReturn := true } rfl htop hbelow) _ _ _
      · exact quiet_cons _ rfl htop hbelow
  | defer name args =>
      simp only [perform]
      split <;> exact quiet_cons _ rfl htop hbelow
  | _ => exact quiet_cons _ rfl htop hbelow

theorem pop_quiet {s : State} (h : s.Quiet) : s.pop.Quiet := by
  have htail : ∀ a ∈ s.stack.tail, a.popReported = false :=
    fun a ha => h a (List.mem_of_mem_tail ha)
  intro a ha
  rw [pop] at ha
  generalize s.stack.tail = rest at ha htail
  cases rest with
  | nil => cases ha
  | cons caller rest =>
      rw [resumeCaller] at ha
      split at ha
      · rcases List.mem_cons.1 ha with rfl | ha
        · exact htail caller List.mem_cons_self
        · exact htail a (List.mem_cons_of_mem caller ha)
      · exact htail a ha

/-- Under no hooks, no end is reported. -/
theorem tick_quiet {s : State} (h : s.Quiet) : s.tick.Quiet := by
  have hstep := step_advance .none s
  change Step .none s s.tick (advance .none s).2 at hstep
  generalize (advance .none s).2 = event at hstep
  generalize s.tick = t at hstep
  have hparts : ∀ top below, s.stack = top :: below →
      top.popReported = false ∧ ∀ a ∈ below, a.popReported = false := by
    intro top below hstack
    exact ⟨h top (hstack ▸ List.mem_cons_self),
      fun a ha => h a (hstack ▸ List.mem_cons_of_mem top ha)⟩
  cases hstep with
  | start => exact push_quiet (s := { s with started := true }) h _ _ _
  | finish => exact h
  | @unqueue call rest => exact push_quiet (s := { s with deferred := rest }) h _ _ _
  | report _ _ _ _ _ hhook => cases hhook
  | leave => exact pop_quiet h
  | enter hstarted hstack =>
      obtain ⟨htop, hbelow⟩ := hparts _ _ hstack
      exact quiet_cons _ rfl htop hbelow
  | consider hstarted hstack =>
      obtain ⟨htop, hbelow⟩ := hparts _ _ hstack
      exact quiet_cons _ rfl htop hbelow
  | execute hstarted hstack =>
      obtain ⟨htop, hbelow⟩ := hparts _ _ hstack
      exact perform_quiet htop hbelow _

/-! ## Breakpoints -/

/-- The state with other breakpoints. -/
def withBreakpoints (s : State) (places : List (UnitId × Nat)) : State :=
  { s with breakpoints := places }

/-- A breakpoint is set beside the others, or is already there. -/
theorem setBreakpoint_eq (s : State) (unit : UnitId) (offset : Nat) :
    ∃ places, Engine.setBreakpoint s unit offset = s.withBreakpoints places := by
  by_cases hset : s.hasBreakpoint unit offset = true
  · exact ⟨s.breakpoints, if_pos hset⟩
  · exact ⟨_, if_neg hset⟩

theorem push_withBreakpoints (s : State) (places : List (UnitId × Nat)) (unit : UnitId)
    (args : List Value) (callee : Option String) :
    push (s.withBreakpoints places) unit args callee =
      (push s unit args callee).withBreakpoints places := by
  simp only [push, withBreakpoints]
  split <;> rfl

theorem perform_withBreakpoints (s : State) (places : List (UnitId × Nat)) (top : Activation)
    (below : List Activation) (op : Source.Op) :
    perform (s.withBreakpoints places) top below op =
      (perform s top below op).withBreakpoints places := by
  cases op with
  | call name args =>
      simp only [perform, withBreakpoints]
      split
      · exact push_withBreakpoints
          { s with
            heap := (evaluateAll s.heap top args).1
            stack := { top with awaitingReturn := true } :: below } places _ _ _
      · rfl
  | defer name args =>
      simp only [perform, withBreakpoints]
      split <;> rfl
  | _ => rfl

/-- The breakpoints do not matter for where the program goes. -/
theorem tick_withBreakpoints (s : State) (places : List (UnitId × Nat)) :
    (s.withBreakpoints places).tick = s.tick.withBreakpoints places := by
  have hstep := step_advance .none s
  change Step .none s s.tick (advance .none s).2 at hstep
  generalize (advance .none s).2 = event at hstep
  generalize ht : s.tick = t at hstep
  cases hstep with
  | start hstarted =>
      rw [tick_start (s := s.withBreakpoints places) hstarted]
      exact push_withBreakpoints { s with started := true } places _ _ _
  | finish hstarted hstack hdeferred =>
      exact tick_finish (s := s.withBreakpoints places) hstarted hstack hdeferred
  | @unqueue call rest hstarted hstack hdeferred =>
      rw [tick_unqueue (s := s.withBreakpoints places) hstarted hstack hdeferred]
      exact push_withBreakpoints { s with deferred := rest } places _ _ _
  | enter hstarted hstack hentered =>
      exact tick_enter (s := s.withBreakpoints places) hstarted hstack hentered
  | report _ _ _ _ _ hhook => cases hhook
  | leave hstarted hstack hentered hend =>
      exact tick_leave (s := s.withBreakpoints places) hstarted hstack hentered hend
  | consider hstarted hstack hentered hinstr hseen =>
      exact tick_consider (s := s.withBreakpoints places) hstarted hstack hentered hinstr hseen
  | execute hstarted hstack hentered hinstr hseen =>
      rw [tick_execute (s := s.withBreakpoints places) hstarted hstack hentered hinstr hseen]
      exact perform_withBreakpoints s places _ _ _

/-- No step changes the breakpoints. -/
theorem tick_breakpoints (s : State) : s.tick.breakpoints = s.breakpoints := by
  have hsame : s.withBreakpoints s.breakpoints = s := rfl
  have htick := tick_withBreakpoints s s.breakpoints
  rw [hsame] at htick
  rw [htick]
  rfl

theorem after_breakpoints (s : State) (n : Nat) : (s.after n).breakpoints = s.breakpoints := by
  induction n with
  | zero => rfl
  | succ n ih => rw [after, tick_breakpoints, ih]

/-! ## The end -/

theorem tick_finished {s : State} (h : s.isFinished = true) : s.tick = s := by
  simp only [isFinished, Bool.and_eq_true, List.isEmpty_iff] at h
  exact tick_finish h.1.1 h.1.2 h.2

theorem after_of_finished {s : State} {k m : Nat} (h : (s.after k).isFinished = true)
    (hle : k ≤ m) : s.after m = s.after k := by
  induction hle with
  | refl => rfl
  | step hle ih => rw [after, ih, tick_finished h]

end ScriptDebugger.Machine.State

namespace ScriptDebugger.Machine.Program

/-- What a text comes to through its program. -/
theorem exists_of_ofSource {α : Type} {url source : String} {f : Program → Option α} {a : α}
    (h : (Program.ofSource url source).toOption.bind f = some a) :
    ∃ program, Program.ofSource url source = .ok program ∧ f program = some a := by
  cases hsource : Program.ofSource url source with
  | error fault =>
      rw [hsource] at h
      cases h
  | ok program =>
      rw [hsource] at h
      exact ⟨program, rfl, h⟩

/-- A program that is loaded is compiled from a text. -/
theorem exists_source_of_load {library : String → Option String} {url : String} {program : Program}
    (h : Program.load library url = .ok program) :
    ∃ source, Program.ofSource url source = .ok program := by
  unfold Program.load at h
  split at h
  · exact ⟨_, h⟩
  · cases h

end ScriptDebugger.Machine.Program
