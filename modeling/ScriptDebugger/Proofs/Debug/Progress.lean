import Mathlib
import ScriptDebugger.Proofs.Debug.Stepping
import ScriptDebugger.Proofs.Debug.Transparency
import ScriptDebugger.Proofs.Machine.Functions
import ScriptDebugger.Proofs.Machine.Onward
/-!
# What is executed between two stops

A run to the next stop is watched by a recorder. Once it has executed an instruction of the frame in
which the pause was, it does not stop at that place of the frame again.

A run can stop without having executed anything in one way only. The pause began at the entry of a
frame, so the boundary of the frame's first instruction was not considered yet, and there is a
breakpoint at it.

## Main results

* `Reached.pausedAt` — a pause is at an instruction whose boundary is over, or at the entry of a
  frame.
* `Reached.entry_cases` — at such an entry there is an instruction, or nothing is left to run.
* `resume_moves_or_stays_at_entry` — a run from a pause to the next stop moves on, unless it begins
  at the entry of a frame with a breakpoint.
-/

namespace ScriptDebugger.Debug

open Machine (State Activation Control ControlFrame Program Recorded)
open Source (Instruction)
open Wire (HostMessage DebuggerMessage)

/-! ## What a run keeps -/

/-- What every small step keeps, whatever its hooks are, a run keeps. -/
theorem runWithin_keeps {σ : Type} [Engine σ] {P : σ → Prop}
    (hkeep : ∀ hooks s, P s → P (Engine.advance hooks s).1) {fuel : Nat} {c c' : Context} {s t : σ}
    {stop : Option Stop} (h : P s) (hrun : c.runWithin fuel s = some (c', t, stop)) : P t := by
  have hnext {hooks : Hooks} {s next : σ} {event : Option Event}
      (hadvance : Engine.advance hooks s = (next, event)) (hs : P s) : P next := by
    have hkept := hkeep hooks s hs
    rwa [hadvance] at hkept
  exact runWithin_induct (P := fun _ s => P s → P t)
    (fun _ _ _ hadvance ih hs => ih (hnext hadvance hs))
    (fun _ _ hadvance => hnext hadvance)
    (fun _ _ _ _ _ _ hadvance _ ih hs => ih (hnext hadvance hs))
    (fun _ _ _ _ _ _ hadvance _ => hnext hadvance) hrun h

theorem runWithin_program {c c' : Context} {s t : State} {fuel : Nat} {stop : Option Stop}
    (hrun : c.runWithin fuel s = some (c', t, stop)) : t.program = s.program := by
  refine runWithin_keeps (P := fun t => t.program = s.program) ?_ rfl hrun
  intro hooks t hprogram
  exact (State.step_advance hooks t).program_eq.trans hprogram

/-! ## Where a pause is -/

/-- The running frame stands at a boundary that is over, or at its first instruction. -/
def AtBoundary (c : Control) : Prop :=
  ∀ top below, c.stack = top :: below → top.boundarySeen = true ∨ top.pc = 0

/-- A turn that stops leaves the running frame at a boundary that is over, or at its entry. -/
theorem Turn.atBoundary {c c' : Context} {s : State} {stop : Stop} (hsound : s.control.Sound)
    (h : Turn c s c' (some stop)) : AtBoundary s.tick.control := by
  cases h with
  | @event event _ _ hadvance hfinish hpop hevent =>
      have hstep := State.step_of_advance hadvance
      generalize s.tick = t at hstep
      generalize hsome : some event = reported at hstep
      intro first rest hfirst
      cases hstep with
      | finish => exact absurd (Option.some.inj hsome) hfinish
      | report => exact absurd (Option.some.inj hsome) (hpop _)
      | @enter top below hstarted hstack hentered =>
          obtain ⟨rfl, -⟩ := List.cons.inj hfirst
          have hfresh := (hsound.live_top (Machine.control_stack hstack)).fresh hentered
          exact Or.inr hfresh.1
      | consider =>
          obtain ⟨rfl, -⟩ := List.cons.inj hfirst
          exact Or.inl rfl
      | _ => cases hsome

/-- So does a run that stops. -/
theorem Steady.atBoundary {c c' : Context} {s t : State} {fuel : Nat} {stop : Stop}
    (h : Steady c s) (hrunning : c.stepper.paused = none)
    (hrun : c.runWithin fuel s = some (c', t, some stop)) : AtBoundary t.control := by
  induction fuel using Nat.strongRecOn generalizing c s with
  | ind fuel ih =>
    rcases runWithin_cases hrun with ⟨-, -, -, hnone⟩ | ⟨reason, hstop, rfl, hturn⟩ |
      ⟨next, rest, hturn, hlt, hrest⟩
    · cases hnone
    · exact hturn.atBoundary h.onTrace.sound
    · obtain ⟨hsteady, hpaused⟩ := h.turn hrunning hturn
      exact ih rest hlt hsteady hpaused hrest

/-- In a pause no other program is chosen. -/
theorem Steady.select_paused {c : Context} {s : State} (h : Steady c s) {frame : FrameId}
    (hpaused : c.stepper.paused = some frame) (path : String) :
    Engine.selectProgram s path = s := by
  obtain ⟨-, -, top, below, hstack, -⟩ := h.paused frame hpaused
  have hstarted := h.onTrace.started hstack
  change s.selectProgram path = s
  unfold State.selectProgram
  rw [if_pos (Or.inr hstarted)]

namespace Reached

variable {c : Context} {s : State}

/-- A pause is at an instruction whose boundary is over, or at the entry of a frame. -/
theorem pausedAt (h : Reached c s) {frame : FrameId} (hpaused : c.stepper.paused = some frame) :
    AtBoundary s.control := by
  induction h generalizing frame with
  | start hsource => cases hpaused
  | select path h ih =>
      rw [h.steady.select_paused hpaused]
      exact ih hpaused
  | serve h hserve ih =>
      obtain ⟨htouched, hstepper⟩ := touched_perform hserve
      rw [htouched.control]
      rw [hstepper] at hpaused
      exact ih hpaused
  | @resume c s mode h ih =>
      cases hbefore : c.stepper.paused with
      | none =>
          simp only [Context.resume, Stepper.resume, hbefore] at hpaused
          cases hpaused
      | some other =>
          simp only [Context.resume, Stepper.resume, hbefore] at hpaused
          cases hpaused
  | @run c c' s s' stop fuel h hrunning hrun ih =>
      cases stop with
      | some stop => exact h.steady.atBoundary hrunning hrun
      | none => cases (h.steady.runWithin hrunning hrun).2.symm.trans hpaused

/-- A program that is chosen is compiled as well. -/
theorem onlyModuleEmpty (h : Reached c s) : s.program.OnlyModuleEmpty := by
  induction h with
  | start hsource => exact Machine.onlyModuleEmpty_of_ofSource hsource
  | @select c s path h ih =>
      change (s.selectProgram path).program.OnlyModuleEmpty
      unfold State.selectProgram
      split
      · exact ih
      · split
        · rename_i program hload
          obtain ⟨source, hsource⟩ := Program.exists_source_of_load hload
          exact Machine.onlyModuleEmpty_of_ofSource hsource
        · exact ih
  | @serve c c' s s' message reply h hserve ih =>
      have hprogram : s'.program = s.program :=
        congrArg Control.program (touched_perform hserve).1.control
      rw [hprogram]
      exact ih
  | resume mode h ih => exact ih
  | @run c c' s s' stop fuel h hrunning hrun ih =>
      rw [runWithin_program hrun]
      exact ih

/-- At the entry of a frame there is an instruction, or the module has none and nothing else is left
to run. -/
theorem entry_cases (h : Reached c s) {top : Activation} {below : List Activation}
    (hstack : s.stack = top :: below) (hpc : top.pc = 0) :
    (∃ i, s.program.instruction? top.unit top.pc = some i) ∨ below = [] ∧ s.deferred = [] := by
  cases hinstr : s.program.instruction? top.unit top.pc with
  | some i => exact Or.inl ⟨i, rfl⟩
  | none =>
      obtain ⟨n, hn⟩ := h.steady.onTrace.control
      have hstack' : ((Control.initial s.program).after n).stack =
          top.control :: below.map Activation.control := by
        rw [← hn]
        exact Machine.control_stack hstack
      have hunit : (s.program.unit? top.unit).isSome :=
        Control.unit?_after s.program n top.control (hstack' ▸ List.mem_cons_self)
      have hempty : s.program.codeLength top.unit = 0 := by
        have hend := Program.instruction?_eq_none_iff.1 hinstr
        omega
      rw [h.onlyModuleEmpty top.unit hunit hempty] at hempty
      have hbare := Control.Bare.after hempty n
      refine Or.inr ⟨?_, ?_⟩
      · rcases hbare.stack with hnil | ⟨f, hf, -⟩
        · cases hnil.symm.trans hstack'
        · obtain ⟨-, hbelow⟩ := List.cons.inj (hstack'.symm.trans hf)
          exact List.map_eq_nil_iff.1 hbelow
      · have hqueue := hbare.queue
        rw [← hn] at hqueue
        exact List.map_eq_nil_iff.1 hqueue

end Reached

/-! ## What is recorded -/

/-- An instruction was executed, and the one of a frame at an offset is behind the frame. -/
structure Moved (frame : FrameId) (offset : Nat) (r : Recorded) : Prop where
  executed : r.executed ≠ []
  sound : r.state.control.Sound
  passed : Control.Passed frame offset r.state.control

/-- A small step under any hooks keeps that. -/
theorem Moved.advance {frame : FrameId} {offset : Nat} {r : Recorded} (h : Moved frame offset r)
    (hooks : Hooks) : Moved frame offset (Engine.advance hooks r).1 := by
  have hstep := State.step_advance hooks r.state
  have hexecuted : r.executed ++ r.state.execution?.toList ≠ [] :=
    fun hnil => h.executed (List.append_eq_nil_iff.1 hnil).1
  rw [Recorded.advance_eq]
  rcases hstep.control_eq with ⟨hsame, -⟩ | htick
  · exact ⟨hexecuted, hsame ▸ h.sound, hsame ▸ h.passed⟩
  · exact ⟨hexecuted, htick ▸ h.sound.tick, htick ▸ h.passed.tick h.sound⟩

section

variable {c c' : Context} {s : State} {top : Activation} {below : List Activation} {i : Instruction}
  {fuel : Nat} {r : Recorded} {stop : Option Stop}

/-- A run that begins behind a boundary executes the instruction there. -/
theorem moved_of_seen (hsound : s.control.Sound) (hstarted : s.started = true)
    (hstack : s.stack = top :: below) (hentered : top.entered = true)
    (hinstr : s.program.instruction? top.unit top.pc = some i) (hseen : top.boundarySeen = true)
    (hrun : c.runWithin fuel (⟨s, []⟩ : Recorded) = some (c', r, stop)) :
    Moved top.id top.pc r := by
  cases fuel with
  | zero => cases hrun
  | succ fuel =>
      have hstate : s.advance c.hooks = (s.tick, none) := by
        rw [State.tick_execute hstarted hstack hentered hinstr hseen]
        simp [State.advance, State.advanceFrame, hstarted, hstack, hentered, hinstr, hseen]
      have hexecution : s.execution? = some ⟨top.id, top.unit, top.pc⟩ := by
        simp [State.execution?, hstarted, hstack, hentered, hinstr, hseen]
      have hadvance : Engine.advance c.hooks (⟨s, []⟩ : Recorded) =
          (⟨s.tick, [⟨top.id, top.unit, top.pc⟩]⟩, none) := by
        rw [Recorded.advance_eq, hstate, hexecution]
        rfl
      rw [runWithin_succ, hadvance] at hrun
      have hcontrol := Machine.control_tick s
      have hmoved : Moved top.id top.pc ⟨s.tick, [⟨top.id, top.unit, top.pc⟩]⟩ := by
        refine ⟨List.cons_ne_nil _ _, ?_, ?_⟩
        · show s.tick.control.Sound
          rw [hcontrol]
          exact hsound.tick
        · show Control.Passed top.control.id top.control.pc s.tick.control
          rw [hcontrol]
          exact .of_execute hsound hstarted (Machine.control_stack hstack) hentered hinstr hseen
      exact runWithin_keeps (fun hooks r h => h.advance hooks) hmoved hrun

/-- The boundary at the entry of a frame, where there is a breakpoint. -/
theorem stop_at_entry (hstarted : s.started = true) (hstack : s.stack = top :: below)
    (hentered : top.entered = true) (hinstr : s.program.instruction? top.unit top.pc = some i)
    (hseen : top.boundarySeen = false) (harmed : s.hasBreakpoint top.unit top.pc = true)
    (hrun : c.runWithin fuel (⟨s, []⟩ : Recorded) = some (c', r, stop)) :
    r = ⟨s.tick, []⟩ ∧ stop = some ⟨top.id, .breakpoint top.pc⟩ := by
  cases fuel with
  | zero => cases hrun
  | succ fuel =>
      have hstate : s.advance c.hooks = (s.tick, some (.breakpoint top.id top.pc)) := by
        rw [State.tick_consider hstarted hstack hentered hinstr hseen]
        simp [State.advance, State.advanceFrame, hstarted, hstack, hentered, hinstr, hseen, harmed]
      have hexecution : s.execution? = none := by simp [State.execution?, hstack, hseen]
      have hadvance : Engine.advance c.hooks (⟨s, []⟩ : Recorded) =
          (⟨s.tick, []⟩, some (.breakpoint top.id top.pc)) := by
        rw [Recorded.advance_eq, hstate, hexecution]
        rfl
      rw [runWithin_succ, hadvance] at hrun
      rcases hevent : c.onEvent (⟨s.tick, []⟩ : Recorded) (.breakpoint top.id top.pc) with
        ⟨c'', reason⟩
      obtain ⟨-, hreason⟩ := stepper_of_onEvent hevent
      obtain rfl : reason = some ⟨top.id, .breakpoint top.pc⟩ := hreason
      simp only [hevent] at hrun
      obtain ⟨-, rfl, rfl⟩ : c'' = c' ∧ ⟨s.tick, []⟩ = r ∧
          some (⟨top.id, .breakpoint top.pc⟩ : Stop) = stop := by simpa using hrun
      exact ⟨rfl, rfl⟩

/-- The boundary at the entry of a frame, where there is none: the place is the remembered one, so
the frame's hook does not stop the run. -/
theorem run_of_entry {mode : RunMode} (hcommanded : Commanded c s top mode)
    (hstarted : s.started = true) (hstack : s.stack = top :: below)
    (hentered : top.entered = true) (hinstr : s.program.instruction? top.unit top.pc = some i)
    (hseen : top.boundarySeen = false) (hclear : s.hasBreakpoint top.unit top.pc = false)
    (hrun : c.runWithin fuel (⟨s, []⟩ : Recorded) = some (c', r, stop)) :
    ∃ rest, c.runWithin rest
      (⟨{ s with stack := { top with boundarySeen := true } :: below }, []⟩ : Recorded) =
        some (c', r, stop) := by
  cases fuel with
  | zero => cases hrun
  | succ fuel =>
      generalize hnext :
        ({ s with stack := { top with boundarySeen := true } :: below } : State) = next
      have hstate : s.advance c.hooks = (next, s.boundaryEvent c.hooks top) := by
        rw [← hnext]
        simp [State.advance, State.advanceFrame, hstarted, hstack, hentered, hinstr, hseen, hclear,
          State.boundaryEvent]
      have hexecution : s.execution? = none := by simp [State.execution?, hstack, hseen]
      have hadvance : Engine.advance c.hooks (⟨s, []⟩ : Recorded) =
          (⟨next, []⟩, s.boundaryEvent c.hooks top) := by
        rw [Recorded.advance_eq, hstate, hexecution]
        rfl
      rw [runWithin_succ, hadvance, State.boundaryEvent, hclear, if_neg (by decide)] at hrun
      refine ⟨fuel, ?_⟩
      by_cases hhook : c.hooks.action top.id = some .step
      · have hstay : locationOf (⟨next, []⟩ : Recorded) top.id = c.stepper.lastLocation := by
          rw [← morphism_recorded.locationOf, hcommanded.last, hinstr]
          have hinstr' : next.program.instruction? top.unit top.pc = some i := by
            rw [← hnext]
            exact hinstr
          have hstack' : next.stack = { top with boundarySeen := true } :: below := by rw [← hnext]
          exact (locationOf_of_instruction hstack' hinstr' :)
        have hsilent : c.stepper.onEvent (⟨next, []⟩ : Recorded) (.step top.id) =
            (c.stepper, none) := by
          rw [Stepper.onEvent, if_pos hstay, ite_self]
        have hevent : c.onEvent (⟨next, []⟩ : Recorded) (.step top.id) = (c, none) := by
          unfold Context.onEvent
          rw [hsilent]
        simp only [if_pos hhook, hevent] at hrun
        exact hrun
      · simp only [if_neg hhook] at hrun
        exact hrun

end

/-- Where nothing is left to run, there is no stop. -/
theorem no_stop_at_end {c c' : Context} {s t : State} {top : Activation} {fuel : Nat}
    {stop : Option Stop} (hstack : s.stack = [top]) (hdeferred : s.deferred = [])
    (hentered : top.entered = true) (hstarted : s.started = true)
    (hend : s.program.instruction? top.unit top.pc = none)
    (hrun : c.runWithin fuel s = some (c', t, stop)) : stop = none := by
  rcases runWithin_cases hrun with ⟨-, -, -, hnone⟩ | ⟨reason, -, -, hturn⟩ |
    ⟨next, rest, -, -, hrest⟩
  · exact hnone
  · cases hturn with
    | @event event _ _ hadvance _ hpop _ =>
        have hsilent : (s.advance c.hooks).2 = none ∨
            (s.advance c.hooks).2 = some (.pop top.id) := by
          simp only [State.advance, hstarted, hstack, State.advanceFrame, hentered, hend,
            Bool.not_true, Bool.false_eq_true, if_false]
          split
          · exact Or.inr rfl
          · exact Or.inl rfl
        rw [hadvance] at hsilent
        rcases hsilent with hsilent | hsilent
        · cases hsilent
        · exact absurd (Option.some.inj hsilent) (hpop top.id)
  · have hfinished : s.tick.isFinished = true := by
      rw [State.tick_leave hstarted hstack hentered hend]
      simp [State.isFinished, State.pop, hstack, State.resumeCaller, hstarted, hdeferred]
    have hfinish := runWithin_finished next hfinished rest
    rw [runWithin_mono hrest (Nat.le_succ rest)] at hfinish
    exact (congrArg (·.2.2) (Option.some.inj hfinish) :)

/-! ## From one stop to the next -/

/-- The pause began at the entry of the frame, and a breakpoint is at its first instruction. -/
def EntryArmed (s : State) (top : Activation) : Prop :=
  top.boundarySeen = false ∧ s.hasBreakpoint top.unit top.pc = true

instance (s : State) (top : Activation) : Decidable (EntryArmed s top) :=
  inferInstanceAs (Decidable (_ ∧ _))

/-- A run from a pause in the frame `top` to a stop in the frame `last`, on a recorder. -/
structure RunTo (s : State) (top : Activation) (r : Recorded) (last : Activation) (stop : Stop) :
    Prop where
  /-- Where the entry has a breakpoint, nothing is executed and the frame has not moved. -/
  stays : EntryArmed s top →
    r.executed = [] ∧ stop = ⟨top.id, .breakpoint top.pc⟩ ∧ last.id = top.id ∧ last.pc = top.pc ∧
      top.pc = 0
  /-- Otherwise something is executed, and in the same frame the stop is at a later place. -/
  moves : ¬EntryArmed s top → r.executed ≠ [] ∧ (last.id = top.id → top.pc < last.pc)

/-- The machine in a recorder runs alone to the same stop. -/
theorem runWithin_state {c c' : Context} {r t : Recorded} {fuel : Nat} {stop : Option Stop}
    (hrun : c.runWithin fuel r = some (c', t, stop)) :
    c.runWithin fuel r.state = some (c', t.state, stop) := by
  rw [morphism_recorded.runWithin, hrun]
  rfl

theorem Context.resume_running (c : Context) (mode : RunMode) :
    (c.resume mode).stepper.paused = none := by
  unfold Context.resume Stepper.resume
  split
  · assumption
  · rfl

/-- From a pause that the program leaves for another stop, the paused frame has an instruction
left. -/
theorem Reached.instruction?_of_stop {c c' : Context} {s t : State} {top : Activation}
    {below : List Activation} {mode : RunMode} {fuel : Nat} {stop : Stop} (h : Reached c s)
    (hpaused : c.stepper.paused = some top.id) (hstack : s.stack = top :: below)
    (hentered : top.entered = true)
    (hrun : (c.resume mode).runWithin fuel s = some (c', t, some stop)) :
    ∃ i, s.program.instruction? top.unit top.pc = some i := by
  have hcontrol := Machine.control_stack hstack
  cases hend : s.program.instruction? top.unit top.pc with
  | some i => exact ⟨i, rfl⟩
  | none =>
      rcases h.pausedAt hpaused top.control _ hcontrol with hseen | hpc
      · obtain ⟨i, hinstr⟩ := (h.steady.onTrace.sound.live_top hcontrol).seen hseen
        cases hend.symm.trans hinstr
      · rcases h.entry_cases hstack hpc with ⟨i, hinstr⟩ | ⟨rfl, hdeferred⟩
        · cases hend.symm.trans hinstr
        · cases no_stop_at_end hstack hdeferred hentered (h.steady.onTrace.started hstack) hend hrun

/-- A run from a pause to the next stop executes an instruction, and stops in the same frame at a
later place only; unless it begins at the entry of a frame with a breakpoint, where it executes
nothing and stops at the same place again. -/
theorem resume_moves_or_stays_at_entry {c c' : Context} {s : State} {frame : FrameId}
    {mode : RunMode} {fuel : Nat} {r : Recorded} {stop : Stop} (h : Reached c s)
    (hpaused : c.stepper.paused = some frame)
    (hrun : (c.resume mode).runWithin fuel (⟨s, []⟩ : Recorded) = some (c', r, some stop)) :
    ∃ top below last rest, s.stack = top :: below ∧ top.id = frame ∧
      r.state.stack = last :: rest ∧ last.id = stop.frame ∧ RunTo s top r last stop := by
  have hsteady := h.steady
  have hsound := hsteady.onTrace.sound
  have hpause := hsteady.paused frame hpaused
  obtain ⟨top, below, hstack, rfl, hentered, -⟩ := hpause.top
  have hstarted := hsteady.onTrace.started hstack
  have hcommanded := hpause.commanded hpaused hstack mode
  have hrunning := c.resume_running mode
  have halone := runWithin_state hrun
  obtain ⟨hlast, hlastPaused⟩ := (h.resume mode).steady.runWithin hrunning halone
  obtain ⟨last, rest, hlastStack, hlastId, -⟩ := (hlast.paused stop.frame hlastPaused).top
  refine ⟨top, below, last, rest, hstack, rfl, hlastStack, hlastId, ?_⟩
  obtain ⟨i, hinstr⟩ := h.instruction?_of_stop hpaused hstack hentered halone
  have hmoves : Moved top.id top.pc r →
      r.executed ≠ [] ∧ (last.id = top.id → top.pc < last.pc) := fun hmoved =>
    ⟨hmoved.executed, hmoved.passed.lt_running hmoved.sound (Machine.control_stack hlastStack)⟩
  cases hseen : top.boundarySeen with
  | true =>
      refine ⟨fun hentry => ?_, fun _ => hmoves ?_⟩
      · cases hseen.symm.trans hentry.1
      · exact moved_of_seen hsound hstarted hstack hentered hinstr hseen hrun
  | false =>
      cases harmed : s.hasBreakpoint top.unit top.pc with
      | true =>
          refine ⟨fun _ => ?_, fun hnot => absurd ⟨hseen, harmed⟩ hnot⟩
          obtain ⟨rfl, hstop⟩ := stop_at_entry hstarted hstack hentered hinstr hseen harmed hrun
          have htick := State.tick_consider hstarted hstack hentered hinstr hseen
          rw [htick] at hlastStack
          obtain ⟨rfl, -⟩ := List.cons.inj hlastStack
          have hpc : top.pc = 0 := by
            rcases h.pausedAt hpaused top.control _ (Machine.control_stack hstack) with hover | hpc
            · cases hseen.symm.trans hover
            · exact hpc
          exact ⟨rfl, Option.some.inj hstop, rfl, rfl, hpc⟩
      | false =>
          refine ⟨fun hentry => ?_, fun _ => hmoves ?_⟩
          · cases harmed.symm.trans hentry.2
          · obtain ⟨fuel', hrest⟩ :=
              run_of_entry hcommanded hstarted hstack hentered hinstr hseen harmed hrun
            have hconsidered := Machine.control_tick s
            rw [State.tick_consider hstarted hstack hentered hinstr hseen] at hconsidered
            have hsound' : ({ s with stack := { top with boundarySeen := true } :: below } :
                State).control.Sound := by
              rw [hconsidered]
              exact hsound.tick
            have hmoved : Moved ({ top with boundarySeen := true } : Activation).id
                ({ top with boundarySeen := true } : Activation).pc r :=
              moved_of_seen hsound' hstarted rfl hentered hinstr rfl hrest
            exact hmoved

/-- A step into a function, a breakpoint that is set at its first statement during the pause there,
and two runs behind it. -/
private structure Visit where
  loaded : Context × State × Option Stop
  entry : Context × State × Option Stop
  armed : Context × State × Option DebuggerMessage × Outcome
  again : Context × Recorded × Option Stop
  behind : Context × Recorded × Option Stop

private def visit (program : Program) : Option Visit :=
  (Context.initial.runWithin 3 (State.initial (fun _ => none) program)).bind fun loaded =>
  ((loaded.1.resume .into).runWithin 5 loaded.2.1).bind fun entry =>
  let armed := Agent.perform entry.1 entry.2.1 (.setBreakpoint "main.mod" 3 2)
  ((armed.1.resume .run).runWithin 1 (⟨armed.2.1, []⟩ : Recorded)).bind fun again =>
  ((again.1.resume .over).runWithin 5 (⟨again.2.1.state, []⟩ : Recorded)).map fun behind =>
    ⟨loaded, entry, armed, again, behind⟩

/-- What a visit reaches. -/
private structure Visited (v : Visit) : Prop where
  loaded : Reached v.loaded.1 v.loaded.2.1
  entry : (v.loaded.1.resume .into).runWithin 5 v.loaded.2.1 = some v.entry
  armed : Agent.perform v.entry.1 v.entry.2.1 (.setBreakpoint "main.mod" 3 2) = v.armed
  again : (v.armed.1.resume .run).runWithin 1 (⟨v.armed.2.1, []⟩ : Recorded) = some v.again
  behind : (v.again.1.resume .over).runWithin 5 (⟨v.again.2.1.state, []⟩ : Recorded) = some v.behind

private theorem visited_of_visit {url source : String} {program : Program} {v : Visit}
    (hsource : Program.ofSource url source = .ok program) (h : visit program = some v) :
    Visited v := by
  obtain ⟨loaded, hloaded, h⟩ := Option.bind_eq_some_iff.1 h
  obtain ⟨entry, hentry, h⟩ := Option.bind_eq_some_iff.1 h
  obtain ⟨again, hagain, h⟩ := Option.bind_eq_some_iff.1 h
  obtain ⟨behind, hbehind, rfl⟩ := Option.map_eq_some_iff.1 h
  exact ⟨.run (.start hsource) rfl hloaded, hentry, rfl, hagain, hbehind⟩

/-- Where the running frame stands. -/
private def standing (s : State) : Option (FrameId × Nat) := s.stack.head?.map fun a => (a.id, a.pc)

private theorem exists_visit :
    ∃ program v,
      Program.ofSource "main.mod" "call f\nfunction f\n  print \"hi\"\nend\n" = .ok program ∧
      Visited v ∧ v.loaded.1.stepper.paused = some ⟨1⟩ ∧ v.entry.2.2 = some ⟨⟨2⟩, .step⟩ ∧
      v.armed.1.stepper.paused = some ⟨2⟩ ∧ v.armed.2.2.2 = .serve ∧
      standing v.armed.2.1 = some (⟨2⟩, 0) ∧ v.again.1.stepper.paused = some ⟨2⟩ ∧
      v.again.2.2 = some ⟨⟨2⟩, .breakpoint 0⟩ ∧ v.again.2.1.executed = [] ∧
      standing v.again.2.1.state = some (⟨2⟩, 0) ∧ v.behind.2.2 = some ⟨⟨2⟩, .step⟩ := by
  have hcomputed :
      ((Program.ofSource "main.mod" "call f\nfunction f\n  print \"hi\"\nend\n").toOption.bind
        fun program => (visit program).map fun v =>
          (v.loaded.1.stepper.paused, v.entry.2.2, v.armed.1.stepper.paused, v.armed.2.2.2,
            standing v.armed.2.1, v.again.1.stepper.paused, v.again.2.2, v.again.2.1.executed,
            standing v.again.2.1.state, v.behind.2.2)) =
      some
        (some ⟨1⟩, some ⟨⟨2⟩, .step⟩, some ⟨2⟩, .serve, some (⟨2⟩, 0), some ⟨2⟩,
          some ⟨⟨2⟩, .breakpoint 0⟩, [], some (⟨2⟩, 0), some ⟨⟨2⟩, .step⟩) := by cbv
  obtain ⟨program, hsource, hvisit⟩ := Program.exists_of_ofSource hcomputed
  obtain ⟨v, hv, hdata⟩ := Option.map_eq_some_iff.1 hvisit
  simp only [Prod.mk.injEq] at hdata
  exact ⟨program, v, hsource, visited_of_visit hsource hv, hdata⟩

private theorem Visited.reached_armed {v : Visit} (h : Visited v)
    (hserve : v.armed.2.2.2 = .serve) : Reached v.armed.1 v.armed.2.1 := by
  have hentry : Reached v.entry.1 v.entry.2.1 :=
    .run (h.loaded.resume .into) (v.loaded.1.resume_running .into) h.entry
  have hperform : Agent.perform v.entry.1 v.entry.2.1 (.setBreakpoint "main.mod" 3 2) =
      (v.armed.1, v.armed.2.1, v.armed.2.2.1, .serve) := by
    rw [h.armed, ← hserve]
  exact hentry.serve hperform

/-- From the pause at the entry of a function with a breakpoint at its first statement, to continue
executes nothing; from the stop there, to step over executes the statement. -/
theorem resume_moves_or_stays_at_entry_of_function :
    ∃ c s c' r c'' t first again last,
      Reached c s ∧ c.stepper.paused = some ⟨2⟩ ∧
      (c.resume .run).runWithin 1 (⟨s, []⟩ : Recorded) = some (c', r, some ⟨⟨2⟩, .breakpoint 0⟩) ∧
      EntryArmed s first ∧ RunTo s first r again ⟨⟨2⟩, .breakpoint 0⟩ ∧
      Reached c' r.state ∧ c'.stepper.paused = some ⟨2⟩ ∧
      (c'.resume .over).runWithin 5 (⟨r.state, []⟩ : Recorded) =
        some (c'', t, some ⟨⟨2⟩, .step⟩) ∧
      ¬EntryArmed r.state again ∧ RunTo r.state again t last ⟨⟨2⟩, .step⟩ := by
  obtain ⟨program, v, -, hvisited, -, -, hpaused, hserve, -, hagain, hbreak, hnothing, -, hstep⟩ :=
    exists_visit
  have hreached := hvisited.reached_armed hserve
  obtain ⟨-, -, -, hrun, hnext⟩ := hvisited
  rcases hfirst : v.again with ⟨c', r, stop⟩
  rcases hsecond : v.behind with ⟨c'', t, stop'⟩
  rw [hfirst] at hrun hnext hagain hbreak hnothing
  rw [hsecond] at hnext hstep
  subst hbreak hstep
  have hreached' : Reached c' r.state :=
    .run (hreached.resume .run) (v.armed.1.resume_running .run) (runWithin_state hrun)
  obtain ⟨first, below, again, rest, hstack, hid, hstack', hid', hruns⟩ :=
    resume_moves_or_stays_at_entry hreached hpaused hrun
  obtain ⟨again', below', last, rest', hstack'', -, -, -, hmoves⟩ :=
    resume_moves_or_stays_at_entry hreached' hagain hnext
  obtain ⟨rfl, -⟩ := List.cons.inj (hstack'.symm.trans hstack'')
  have harmed : EntryArmed v.armed.2.1 first :=
    Classical.byContradiction fun hnot => (hruns.moves hnot).1 hnothing
  have hclear : ¬EntryArmed r.state again := by
    intro hentry
    cases congrArg Stop.reason (hmoves.stays hentry).2.1
  exact ⟨v.armed.1, v.armed.2.1, c', r, c'', t, first, again, last, hreached, hpaused, hrun,
    harmed, hruns, hreached', hagain, hnext, hclear, hmoves⟩

/-- Two stops behind one another, neither of them the one for the loaded program, may be in one
frame at one offset, with nothing executed between them: the function is entered by a step, and
there is a breakpoint at its first statement. -/
theorem stops_again_at_entry :
    ∃ program c₀ s₀ c₁ s₁ c s reply c' r,
      Program.ofSource "main.mod" "call f\nfunction f\n  print \"hi\"\nend\n" = .ok program ∧
      Reached c₀ s₀ ∧ c₀.stepper.paused = some ⟨1⟩ ∧
      (c₀.resume .into).runWithin 5 s₀ = some (c₁, s₁, some ⟨⟨2⟩, .step⟩) ∧
      Agent.perform c₁ s₁ (.setBreakpoint "main.mod" 3 2) = (c, s, reply, .serve) ∧
      Reached c s ∧ c.stepper.paused = some ⟨2⟩ ∧
      s.stack.head?.map (fun a => (a.id, a.pc)) = some (⟨2⟩, 0) ∧
      (c.resume .run).runWithin 1 (⟨s, []⟩ : Recorded) = some (c', r, some ⟨⟨2⟩, .breakpoint 0⟩) ∧
      r.executed = [] ∧ r.state.stack.head?.map (fun a => (a.id, a.pc)) = some (⟨2⟩, 0) := by
  obtain ⟨program, v, hsource, hvisited, hloaded, hentry, hpaused, hserve, hplace, -, hbreak,
    hnothing, hplace', -⟩ := exists_visit
  have hreached := hvisited.reached_armed hserve
  refine ⟨program, v.loaded.1, v.loaded.2.1, v.entry.1, v.entry.2.1, v.armed.1, v.armed.2.1,
    v.armed.2.2.1, v.again.1, v.again.2.1, hsource, hvisited.loaded, hloaded, ?_, ?_, hreached,
    hpaused, hplace, ?_, hnothing, hplace'⟩
  · rw [hvisited.entry, ← hentry]
  · rw [hvisited.armed, ← hserve]
  · rw [hvisited.again, ← hbreak]

end ScriptDebugger.Debug
