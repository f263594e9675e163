import ScriptDebugger.Proofs.Debug.Turn
import ScriptDebugger.Proofs.Machine.Places
import ScriptDebugger.Proofs.Machine.StackShape
/-!
# A debugger in step with its program

Whatever was requested before, the machine of a debugger is where the program alone gets as well, up
to its data; the debugger's hooks are those of the last command, and the place that it remembers is
the one where the last pause began.

A hooked frame does not stop at the second instruction of an assignment: either the pause began at
the first one, or it did not stop there because the place was the remembered one.

## Main results

* `Aligned.tick` — a hooked frame that goes on has not left the remembered place in the middle of an
  assignment.
* `Steady.turn` — a turn of a run keeps the debugger and the machine in step.
* `Steady.runWithin` — so does a run.
-/

namespace ScriptDebugger.Debug

open Machine (State Activation Control ControlFrame Program)
open Source (Instruction)

/-! ## The place that is remembered -/

/-- Where the running frame is hooked, and stands at a boundary that is over or between the
instructions of an assignment, it stands at the place that is remembered. -/
def Aligned (hooks : Hooks) (last : Option Location) (c : Control) : Prop :=
  ∀ top below i, c.stack = top :: below → hooks.action top.id = some .step →
    c.program.instruction? top.unit top.pc = some i →
    top.boundarySeen = true ∨ i.op.isStore = true → last = some i.location

theorem aligned_of_not_hooked {hooks : Hooks} {last : Option Location} {c : Control}
    (h : ∀ frame, hooks.action frame ≠ some .step) : Aligned hooks last c :=
  fun top _ _ _ hhook => absurd hhook (h top.id)

/-- An assignment does not start a unit. -/
theorem not_store_zero {p : Program} (h : p.Placed) {unit : UnitId} {i : Instruction}
    (hinstr : p.instruction? unit 0 = some i) : i.op.isStore = false := by
  refine Bool.eq_false_iff.2 fun hstore => ?_
  obtain ⟨first, -, -, hfirst, -⟩ := h.paired unit 0 i hinstr hstore
  omega

/-- Behind a call there is no second instruction of an assignment. -/
theorem not_store_behind_call {p : Program} (h : p.Placed) {unit callee : UnitId} {offset : Nat}
    {i : Instruction} (hcall : p.CallsAt unit offset callee)
    (hinstr : p.instruction? unit (offset + 1) = some i) : i.op.isStore = false := by
  refine Bool.eq_false_iff.2 fun hstore => ?_
  obtain ⟨first, j, value, hfirst, hj, hload, -⟩ := h.paired unit (offset + 1) i hinstr hstore
  obtain ⟨k, name, args, hk, hop, -⟩ := hcall
  obtain rfl : offset = first := by omega
  obtain rfl : k = j := Option.some.inj (hk.symm.trans hj)
  rw [hload] at hop
  cases hop

namespace Aligned

variable {hooks : Hooks} {last : Option Location} {c : Control}

theorem of_nil (hstack : c.stack = []) : Aligned hooks last c := by
  intro top below i hcons
  cases hstack.symm.trans hcons

theorem of_known {unit : UnitId} (hplaced : c.program.Placed)
    (hunit : (c.program.unit? unit).isSome) : Aligned hooks last (c.push unit) := by
  rw [Control.push_of_unit hunit]
  intro top below i hstack hhook hinstr hover
  obtain ⟨rfl, -⟩ := List.cons.inj hstack
  rcases hover with hover | hstore
  · cases hover
  · rw [not_store_zero hplaced hinstr] at hstore
    cases hstore

theorem of_idle (c : Control) (hstack : c.stack = []) (hplaced : c.program.Placed)
    (unit : UnitId) : Aligned hooks last (c.push unit) := by
  by_cases hunit : (c.program.unit? unit).isSome
  · exact of_known hplaced hunit
  · rw [Control.push, if_neg hunit]
    exact of_nil hstack

/-- A frame that a call has returned to stands behind the call. -/
theorem of_pop {top : ControlFrame} {below : List ControlFrame} (hsound : c.Sound)
    (hplaced : c.program.Placed) (hstack : c.stack = top :: below) : Aligned hooks last c.pop := by
  intro first rest i hfirst hhook hinstr hover
  have hnested := hsound.nested top below hstack
  rw [Control.pop, hstack, List.tail_cons] at hfirst hinstr
  cases below with
  | nil => cases hfirst
  | cons caller below =>
      obtain ⟨hwaits, -⟩ := hnested
      rw [Control.resumeCaller, if_pos hwaits.awaiting] at hfirst
      obtain ⟨rfl, rfl⟩ := List.cons.inj hfirst
      rcases hover with hover | hstore
      · cases hover
      · rw [not_store_behind_call hplaced hwaits.calls hinstr] at hstore
        cases hstore

/-- A tick keeps it, if the boundary that is considered is no reason to stop. -/
theorem tick (h : Aligned hooks last c) (hsound : c.Sound) (hplaced : c.program.Placed)
    (hconsider : ∀ top below i, c.stack = top :: below → top.boundarySeen = false →
      c.program.instruction? top.unit top.pc = some i → top.entered = true →
      hooks.action top.id = some .step → last = some i.location) :
    Aligned hooks last c.tick := by
  have hstep := Control.step_tick c
  generalize c.tick = d at hstep
  cases hstep with
  | start hstarted =>
      obtain ⟨hstack, -⟩ := hsound.unstarted hstarted
      exact of_idle { c with started := true } hstack hplaced ⟨0⟩
  | finish => exact h
  | @unqueue unit rest hstarted hstack hqueue =>
      exact of_idle { c with queue := rest } hstack hplaced unit
  | @enter top below hstarted hstack hentered =>
      intro first rest i hfirst
      obtain ⟨rfl, rfl⟩ := List.cons.inj hfirst
      exact h top below i hstack
  | leave hstarted hstack hentered hend => exact of_pop hsound hplaced hstack
  | @consider top below i hstarted hstack hentered hinstr hseen =>
      intro first rest j hfirst hhook hj hover
      obtain ⟨rfl, rfl⟩ := List.cons.inj hfirst
      exact hconsider top below j hstack hseen hj hentered hhook
  | call hstarted hstack hentered hinstr hseen hop hcallee =>
      refine of_known hplaced ?_
      exact Program.unit?_of_lookupFunction hcallee
  | @ret top below i hstarted hstack hentered hinstr hseen hop =>
      intro first rest j hfirst hhook hj
      obtain ⟨rfl, rfl⟩ := List.cons.inj hfirst
      have hend := Program.instruction?_eq_none_iff.2 (Nat.le_refl (c.program.codeLength top.unit))
      cases hend.symm.trans hj
  | @pass top below i units hstarted hstack hentered hinstr hseen hret hcall hunits =>
      intro first rest j hfirst hhook hj hover
      obtain ⟨rfl, rfl⟩ := List.cons.inj hfirst
      rcases hover with hover | hstore
      · cases hover
      -- The first instruction of the assignment was executed, so its boundary is over.
      · obtain ⟨offset, k, value, hoffset, hk, -, hsame⟩ := hplaced.paired _ _ j hj hstore
        obtain rfl : top.pc = offset := by
          have hnext : top.pc + 1 = offset + 1 := hoffset
          omega
        rw [h top below k hstack hhook hk (Or.inl hseen), hsame]

end Aligned

/-! ## In step with the program -/

/-- A machine that is, up to its data, where its program alone gets. -/
structure OnTrace (s : State) : Prop where
  control : ∃ n, s.control = (Control.initial s.program).after n
  placed : s.program.Placed
  armed : ∀ unit offset, s.hasBreakpoint unit offset = true →
    ∃ i, s.program.instruction? unit offset = some i ∧ i.op.isStore = false
  quiet : s.Quiet

theorem sound_control_initial (p : Program) : (Control.initial p).Sound :=
  Machine.sound_initial (fun _ => none) p

namespace OnTrace

variable {s t : State}

theorem sound (h : OnTrace s) : s.control.Sound := by
  obtain ⟨n, hn⟩ := h.control
  rw [hn]
  exact (sound_control_initial s.program).after n

theorem tick (h : OnTrace s) : OnTrace s.tick where
  control := by
    obtain ⟨n, hn⟩ := h.control
    refine ⟨n + 1, ?_⟩
    rw [Machine.control_tick, hn, State.tick_program, Control.after]
  placed := by
    rw [State.tick_program]
    exact h.placed
  armed unit offset hset := by
    rw [State.hasBreakpoint, State.tick_breakpoints] at hset
    rw [State.tick_program]
    exact h.armed unit offset hset
  quiet := State.tick_quiet h.quiet

/-- Data that changes, and breakpoints that are set where statements start. -/
theorem of_control_eq (h : OnTrace s) (hcontrol : t.control = s.control)
    (hquiet : ∀ a ∈ t.stack, ∃ b ∈ s.stack, a.popReported = b.popReported)
    (harmed : ∀ unit offset, t.hasBreakpoint unit offset = true →
      s.hasBreakpoint unit offset = true ∨
        ∃ i, s.program.instruction? unit offset = some i ∧ i.op.isStore = false) :
    OnTrace t where
  control := by
    have hprogram : t.program = s.program := congrArg Control.program hcontrol
    rw [hcontrol, hprogram]
    exact h.control
  placed := by
    have hprogram : t.program = s.program := congrArg Control.program hcontrol
    rw [hprogram]
    exact h.placed
  armed unit offset hset := by
    have hprogram : t.program = s.program := congrArg Control.program hcontrol
    rw [hprogram]
    exact (harmed unit offset hset).elim (h.armed unit offset) id
  quiet a ha := by
    obtain ⟨b, hb, heq⟩ := hquiet a ha
    rw [heq]
    exact h.quiet b hb

theorem started (h : OnTrace s) {top : Activation} {below : List Activation}
    (hstack : s.stack = top :: below) : s.started = true := by
  cases hstarted : s.started with
  | true => rfl
  | false =>
      obtain ⟨hnil, -⟩ := h.sound.unstarted hstarted
      rw [Machine.control_stack hstack] at hnil
      cases hnil

end OnTrace

/-- A pause in a frame: it is the running one, its entry is over, the place where it stands is
remembered, and does not lie between the instructions of an assignment. -/
structure PausedIn (c : Context) (s : State) (frame : FrameId) : Prop where
  hooks : c.hooks = .none
  loaded : c.stepper.loaded = true
  top : ∃ top below, s.stack = top :: below ∧ top.id = frame ∧ top.entered = true ∧
    c.stepper.lastLocation = (s.program.instruction? top.unit top.pc).map (·.location) ∧
    ∀ i, s.program.instruction? top.unit top.pc = some i → i.op.isStore = false

/-- A debugger and its machine that are in step. Before the first pause, the entry of the module is
waited for. -/
structure Steady (c : Context) (s : State) : Prop where
  onTrace : OnTrace s
  aligned : Aligned c.hooks c.stepper.lastLocation s.control
  loading : c.stepper.loaded = false → c.hooks = { onEnter := true } ∧
    (s.started = false ∨ ∃ top, s.stack = [top] ∧ top.entered = false)
  paused : ∀ frame, c.stepper.paused = some frame → PausedIn c s frame

namespace Steady

variable {c c' : Context} {s t : State}

/-- A pause begins. -/
theorem of_pause (h : OnTrace t) (top : Activation) {below : List Activation} (st : Stepper)
    (reason : StopReason) (hstepper : c.stepper = (st.pause t top.id reason).1)
    (hloaded : st.loaded = true) (hstack : t.stack = top :: below) (hentered : top.entered = true)
    (hstore : ∀ i, t.program.instruction? top.unit top.pc = some i → i.op.isStore = false) :
    Steady c t where
  onTrace := h
  aligned := by
    refine aligned_of_not_hooked fun frame => ?_
    rw [Context.hooks, hstepper]
    intro hhook
    cases hhook
  loading hnot := by
    rw [hstepper] at hnot
    cases hloaded.symm.trans hnot
  paused frame hframe := by
    rw [hstepper] at hframe
    obtain rfl := Option.some.inj hframe
    refine ⟨?_, ?_, top, below, hstack, rfl, hentered, ?_, hstore⟩
    · rw [Context.hooks, hstepper]
      rfl
    · rw [hstepper]
      exact hloaded
    · rw [hstepper, ← locationOf_top hstack]
      rfl

/-- The event of a boundary that is considered. -/
theorem advance_consider {hooks : Hooks} {top : Activation} {below : List Activation}
    {i : Instruction} (hstarted : s.started = true) (hstack : s.stack = top :: below)
    (hentered : top.entered = true)
    (hinstr : s.program.instruction? top.unit top.pc = some i)
    (hseen : top.boundarySeen = false) :
    (s.advance hooks).2 = s.boundaryEvent hooks top := by
  simp [State.advance, State.advanceFrame, hstarted, hstack, hentered, hinstr, hseen,
    State.boundaryEvent]

/-- The next tick keeps the remembered place, if no boundary is considered there that the debugger
hooked at another place. -/
theorem aligned_tick (h : Steady c s)
    (hconsider : ∀ top below i, s.stack = top :: below →
      s.program.instruction? top.unit top.pc = some i →
      (s.advance c.hooks).2 = s.boundaryEvent c.hooks top →
      c.hooks.action top.id = some .step → c.stepper.lastLocation = some i.location) :
    Aligned c.hooks c.stepper.lastLocation s.tick.control := by
  rw [Machine.control_tick]
  refine h.aligned.tick h.onTrace.sound h.onTrace.placed ?_
  intro first rest i hfirst hseen hinstr hentered hhook
  cases hstack : s.stack with
  | nil =>
      rw [State.control, hstack] at hfirst
      cases hfirst
  | cons top below =>
      rw [Machine.control_stack hstack] at hfirst
      obtain ⟨rfl, -⟩ := List.cons.inj hfirst
      have hstarted := h.onTrace.started hstack
      exact hconsider top below i hstack hinstr
        (advance_consider hstarted hstack hentered hinstr hseen) hhook

/-- A turn without an event. -/
theorem silent (h : Steady c s) (hrunning : c.stepper.paused = none)
    (hadvance : s.advance c.hooks = (s.tick, none)) : Steady c s.tick where
  onTrace := h.onTrace.tick
  aligned := by
    refine h.aligned_tick ?_
    intro top below i hstack hinstr hevent hhook
    rw [hadvance, State.boundaryEvent, if_pos hhook] at hevent
    split at hevent <;> cases hevent
  loading hnot := by
    obtain ⟨hhooks, hbefore⟩ := h.loading hnot
    refine ⟨hhooks, Or.inr ?_⟩
    rcases hbefore with hstarted | ⟨top, hstack, hentered⟩
    · obtain ⟨hnil, -⟩ := h.onTrace.sound.unstarted hstarted
      have hempty : s.stack = [] := List.map_eq_nil_iff.1 hnil
      obtain ⟨code, hcode⟩ := Option.isSome_iff_exists.1 h.onTrace.placed.module
      rw [State.tick_start hstarted, State.start]
      simp only [State.push, hcode, hempty]
      exact ⟨_, rfl, rfl⟩
    · have hstarted := h.onTrace.started hstack
      have hevent : (s.advance c.hooks).2 = some (.enterFrame top.id) := by
        simp [State.advance, State.advanceFrame, hstarted, hstack, hentered, hhooks]
      rw [hadvance] at hevent
      cases hevent
  paused frame hframe := by
    rw [hrunning] at hframe
    cases hframe

/-- Only stepping matters. -/
theorem of_stepper_eq (h : Steady c s) (hstepper : c'.stepper = c.stepper) : Steady c' s where
  onTrace := h.onTrace
  aligned := by
    rw [Context.hooks, hstepper]
    exact h.aligned
  loading := by
    rw [Context.hooks, hstepper]
    exact h.loading
  paused frame hframe := by
    rw [hstepper] at hframe
    obtain ⟨hhooks, hloaded, htop⟩ := h.paused frame hframe
    refine ⟨?_, ?_, ?_⟩
    · rw [Context.hooks, hstepper]
      exact hhooks
    · rw [hstepper]
      exact hloaded
    · rw [hstepper]
      exact htop

/-- The entry of a frame is a stop, if it is waited for. -/
theorem of_enter (ht : OnTrace t) {stop : Option Stop} {top : Activation}
    {below : List Activation} (hlive : top.pc = 0) (htop : t.stack = top :: below)
    (hentered : top.entered = true) (honEnter : c.hooks.onEnter = true)
    (hevent : c.onEvent t (.enterFrame top.id) = (c', stop)) :
    Steady c' t ∧ c'.stepper.paused = stop.map (·.frame) := by
  have hstore : ∀ i, t.program.instruction? top.unit top.pc = some i → i.op.isStore = false := by
    rw [hlive]
    exact fun i hinstr => not_store_zero ht.placed hinstr
  obtain ⟨hstepper, hstop⟩ := stepper_of_onEvent hevent
  rw [Stepper.onEvent, if_neg (by simpa [Context.hooks] using honEnter)] at hstepper hstop
  cases hloaded : c.stepper.loaded with
  | true =>
      rw [hloaded, if_pos rfl] at hstepper hstop
      refine ⟨of_pause ht top c.stepper .step hstepper hloaded htop hentered hstore, ?_⟩
      rw [hstepper, hstop]
      rfl
  | false =>
      rw [hloaded, if_neg (by decide)] at hstepper hstop
      refine ⟨of_pause ht top { c.stepper with loaded := true } .loaded hstepper rfl htop hentered
        hstore, ?_⟩
      rw [hstepper, hstop]
      rfl

/-- Behind the entry of the first frame, that entry was seen. -/
theorem loaded_of_entered (h : Steady c s) {top : Activation} {below : List Activation}
    (hstack : s.stack = top :: below) (hentered : top.entered = true) :
    c.stepper.loaded = true := by
  cases hloaded : c.stepper.loaded with
  | true => rfl
  | false =>
      obtain ⟨-, hstarted | ⟨first, hfirst, hnot⟩⟩ := h.loading hloaded
      · cases (h.onTrace.started hstack).symm.trans hstarted
      · obtain ⟨rfl, -⟩ := List.cons.inj (hstack.symm.trans hfirst)
        cases hentered.symm.trans hnot

/-- A breakpoint is a stop. -/
theorem breakpoint (h : Steady c s) (ht : OnTrace t) {stop : Option Stop} {top : Activation}
    {below : List Activation} (hloaded : c.stepper.loaded = true) (hentered : top.entered = true)
    (hprogram : t.program = s.program)
    (htop : t.stack = { top with boundarySeen := true } :: below)
    (hset : s.hasBreakpoint top.unit top.pc = true)
    (hevent : c.onEvent t (.breakpoint top.id top.pc) = (c', stop)) :
    Steady c' t ∧ c'.stepper.paused = stop.map (·.frame) := by
  obtain ⟨hstepper, hstop⟩ := stepper_of_onEvent hevent
  have hstore : ∀ j, t.program.instruction? top.unit top.pc = some j → j.op.isStore = false := by
    intro j hj
    obtain ⟨k, hk, hop⟩ := h.onTrace.armed top.unit top.pc hset
    rw [hprogram, hk] at hj
    obtain rfl := Option.some.inj hj
    exact hop
  refine ⟨of_pause ht { top with boundarySeen := true } c.stepper (.breakpoint top.pc) hstepper
    hloaded htop hentered hstore, ?_⟩
  rw [hstepper, hstop]
  rfl

/-- The step of a hooked frame is a stop where the frame has left the place that is remembered. -/
theorem step (h : Steady c s) (ht : OnTrace t) (hrunning : c.stepper.paused = none)
    {stop : Option Stop} {top : Activation} {below : List Activation} {i : Instruction}
    (hloaded : c.stepper.loaded = true) (hstack : s.stack = top :: below)
    (hentered : top.entered = true)
    (hinstr : s.program.instruction? top.unit top.pc = some i) (hprogram : t.program = s.program)
    (htop : t.stack = { top with boundarySeen := true } :: below)
    (hhook : c.hooks.action top.id = some .step)
    (haligned : c.stepper.lastLocation = some i.location →
      Aligned c.hooks c.stepper.lastLocation t.control)
    (hevent : c.onEvent t (.step top.id) = (c', stop)) :
    Steady c' t ∧ c'.stepper.paused = stop.map (·.frame) := by
  obtain ⟨hstepper, hstop⟩ := stepper_of_onEvent hevent
  have hinstr' : t.program.instruction? top.unit top.pc = some i := by
    rw [hprogram]
    exact hinstr
  have hlocation : locationOf t top.id = some i.location :=
    (locationOf_of_instruction htop hinstr' :)
  rw [Stepper.onEvent, if_neg (fun hnot => hnot hhook), hlocation] at hstepper hstop
  by_cases hsame : some i.location = c.stepper.lastLocation
  · rw [if_pos hsame] at hstepper hstop
    have hsteady : Steady c t := by
      refine ⟨ht, haligned hsame.symm, fun hnot => ?_, fun frame hframe => ?_⟩
      · cases hloaded.symm.trans hnot
      · cases hrunning.symm.trans hframe
    refine ⟨hsteady.of_stepper_eq hstepper, ?_⟩
    rw [hstepper, hstop, hrunning]
    rfl
  · rw [if_neg hsame] at hstepper hstop
    have hstore : ∀ j, t.program.instruction? top.unit top.pc = some j → j.op.isStore = false := by
      intro j hj
      obtain rfl : i = j := Option.some.inj (hinstr'.symm.trans hj)
      refine Bool.eq_false_iff.2 fun hop => hsame ?_
      exact (h.aligned top.control _ i (Machine.control_stack hstack) hhook hinstr
        (Or.inr hop)).symm
    refine ⟨of_pause ht { top with boundarySeen := true } c.stepper .step hstepper hloaded htop
      hentered hstore, ?_⟩
    rw [hstepper, hstop]
    rfl

/-- A boundary is a stop for its breakpoint, or where a hooked frame has left the place that is
remembered. -/
theorem boundary (h : Steady c s) (ht : OnTrace t) (hrunning : c.stepper.paused = none)
    {event : Event} {stop : Option Stop} {top : Activation} {below : List Activation}
    {i : Instruction} (hstack : s.stack = top :: below) (hentered : top.entered = true)
    (hinstr : s.program.instruction? top.unit top.pc = some i) (hprogram : t.program = s.program)
    (htop : t.stack = { top with boundarySeen := true } :: below)
    (hboundary : s.boundaryEvent c.hooks top = some event)
    (haligned : (c.hooks.action top.id = some .step → c.stepper.lastLocation = some i.location) →
      Aligned c.hooks c.stepper.lastLocation t.control)
    (hevent : c.onEvent t event = (c', stop)) :
    Steady c' t ∧ c'.stepper.paused = stop.map (·.frame) := by
  have hloaded := h.loaded_of_entered hstack hentered
  unfold State.boundaryEvent at hboundary
  by_cases hset : s.hasBreakpoint top.unit top.pc = true
  · rw [if_pos hset] at hboundary
    obtain rfl := Option.some.inj hboundary
    exact h.breakpoint ht hloaded hentered hprogram htop hset hevent
  · rw [if_neg hset] at hboundary
    by_cases hhook : c.hooks.action top.id = some .step
    · rw [if_pos hhook] at hboundary
      obtain rfl := Option.some.inj hboundary
      exact h.step ht hrunning hloaded hstack hentered hinstr hprogram htop hhook
        (fun hsame => haligned fun _ => hsame) hevent
    · rw [if_neg hhook] at hboundary
      cases hboundary

/-- A turn with an event that leaves the stack alone. -/
theorem event (h : Steady c s) (hrunning : c.stepper.paused = none) {event : Event}
    {stop : Option Stop} (hadvance : s.advance c.hooks = (s.tick, some event))
    (hfinish : event ≠ .finished) (hpop : ∀ frame, event ≠ .pop frame)
    (hevent : c.onEvent s.tick event = (c', stop)) :
    Steady c' s.tick ∧ c'.stepper.paused = stop.map (·.frame) := by
  have hstep := State.step_of_advance hadvance
  have ht := h.onTrace.tick
  have hsnd := congrArg Prod.snd hadvance
  have haligned := h.aligned_tick
  have hprogram := s.tick_program
  generalize s.tick = t at hstep ht hevent haligned hprogram
  generalize hsome : some event = reported at hstep
  cases hstep with
  | finish => exact absurd (Option.some.inj hsome) hfinish
  | report => exact absurd (Option.some.inj hsome) (hpop _)
  | @enter top below hstarted hstack hentered =>
      split at hsome
      · rename_i honEnter
        obtain rfl := Option.some.inj hsome
        have hfresh := (h.onTrace.sound.live_top (Machine.control_stack hstack)).fresh hentered
        have hpc : ({ top with entered := true } : Activation).pc = 0 := hfresh.1
        exact of_enter ht hpc rfl rfl honEnter hevent
      · cases hsome
  | @consider top below i hstarted hstack hentered hinstr hseen =>
      refine h.boundary ht hrunning hstack hentered hinstr rfl rfl hsome.symm ?_ hevent
      intro hplace
      refine haligned fun first rest j hfirst hj _ hhook => ?_
      obtain ⟨rfl, -⟩ := List.cons.inj (hstack.symm.trans hfirst)
      obtain rfl : i = j := Option.some.inj (hinstr.symm.trans hj)
      exact hplace hhook
  | _ => cases hsome

/-- A turn in which a frame ends. -/
theorem pop (h : Steady c s) (hrunning : c.stepper.paused = none) {frame : FrameId} {next : State}
    {stop : Option Stop} (hadvance : s.advance c.hooks = (next, some (.pop frame)))
    (hevent : c.onEvent next (.pop frame) = (c', stop)) :
    Steady c' s.tick ∧ c'.stepper.paused = none := by
  have hstep := State.step_of_advance hadvance
  obtain ⟨top, below, hstarted, hstack, hentered, hend, hhook, -, -⟩ := hstep.pop_inv
  obtain ⟨hstepper, -⟩ := stepper_of_onEvent hevent
  have hpaused : c'.stepper.paused = none := by
    rw [hstepper, Stepper.onEvent]
    split
    · exact hrunning
    · unfold Stepper.leave
      split <;> exact hrunning
  have hloaded : c'.stepper.loaded = c.stepper.loaded := by
    rw [hstepper, Stepper.onEvent]
    split
    · rfl
    · unfold Stepper.leave
      split <;> rfl
  refine ⟨⟨h.onTrace.tick, ?_, ?_, ?_⟩, hpaused⟩
  · rw [State.tick_leave hstarted hstack hentered hend, Machine.control_pop]
    exact .of_pop h.onTrace.sound h.onTrace.placed (Machine.control_stack hstack)
  · intro hnot
    rw [hloaded] at hnot
    obtain ⟨hhooks, -⟩ := h.loading hnot
    rw [hhooks] at hhook
    cases hhook
  · intro frame hframe
    cases hpaused.symm.trans hframe

/-- A turn of a run keeps the debugger and the machine in step; it ends in a pause just if it
stops. -/
theorem turn (h : Steady c s) (hrunning : c.stepper.paused = none) {stop : Option Stop}
    (hturn : Turn c s c' stop) : Steady c' s.tick ∧ c'.stepper.paused = stop.map (·.frame) := by
  cases hturn with
  | silent hadvance => exact ⟨h.silent hrunning hadvance, hrunning⟩
  | event hadvance hfinish hpop hevent => exact h.event hrunning hadvance hfinish hpop hevent
  | pop hadvance hbehind hevent => exact h.pop hrunning hadvance hevent

/-- A run to the next stop, or to the end of the program, keeps them in step. -/
theorem runWithin (h : Steady c s) (hrunning : c.stepper.paused = none) {fuel : Nat}
    {stop : Option Stop} (hrun : c.runWithin fuel s = some (c', t, stop)) :
    Steady c' t ∧ c'.stepper.paused = stop.map (·.frame) := by
  induction fuel using Nat.strongRecOn generalizing c s with
  | ind fuel ih =>
    rcases runWithin_cases hrun with ⟨-, rfl, rfl, rfl⟩ | ⟨reason, rfl, rfl, hturn⟩ |
      ⟨next, rest, hturn, hlt, hrest⟩
    · exact ⟨h, hrunning⟩
    · exact h.turn hrunning hturn
    · obtain ⟨hsteady, hpaused⟩ := h.turn hrunning hturn
      exact ih rest hlt hsteady hpaused hrest

end Steady

end ScriptDebugger.Debug
