import ScriptDebugger.Proofs.Debug.Requests
/-!
# What a debugger reaches

A debugger and its machine get from the start of a compiled program to any pause by requests that
are answered, commands to go on, and runs to the next stop.

## Main results

* `Reached.steady` — they stay in step.
-/

namespace ScriptDebugger.Debug

open Machine (State Activation Control ControlFrame Program)
open Wire (HostMessage DebuggerMessage)

/-- The debugger `c` and the machine `s` are reached from the start of a compiled program. -/
inductive Reached : Context → State → Prop
  /-- The program has not been started. -/
  | start {library : String → Option String} {url source : String} {program : Program}
      (hsource : Program.ofSource url source = .ok program) :
      Reached .initial (State.initial library program)
  /-- A program is chosen; this has an effect before the start only. -/
  | select {c : Context} {s : State} (path : String) (h : Reached c s) :
      Reached c (Engine.selectProgram s path)
  /-- A request is answered. -/
  | serve {c c' : Context} {s s' : State} {message : HostMessage} {reply : Option DebuggerMessage}
      (h : Reached c s) (hserve : Agent.perform c s message = (c', s', reply, .serve)) :
      Reached c' s'
  /-- A pause is ended. -/
  | resume {c : Context} {s : State} (mode : RunMode) (h : Reached c s) : Reached (c.resume mode) s
  /-- The program runs to the next stop, or to its end. -/
  | run {c c' : Context} {s s' : State} {stop : Option Stop} {fuel : Nat} (h : Reached c s)
      (hrunning : c.stepper.paused = none) (hrun : c.runWithin fuel s = some (c', s', stop)) :
      Reached c' s'

/-- The program of a machine alone, some ticks after its start. -/
def alone (s : State) (n : Nat) : State := (State.initial s.library s.program).after n

theorem control_alone (s : State) (n : Nat) :
    (alone s n).control = (Control.initial s.program).after n :=
  Machine.control_after _ n

/-- A machine is, up to its data, where its program alone gets. -/
theorem OnTrace.control_alone {s : State} (h : OnTrace s) :
    ∃ n, s.control = (alone s n).control := by
  obtain ⟨n, hn⟩ := h.control
  exact ⟨n, hn.trans (Debug.control_alone s n).symm⟩

namespace Steady

variable {c : Context} {s : State}

theorem initial {library : String → Option String} {url source : String} {program : Program}
    (h : Program.ofSource url source = .ok program) :
    Steady .initial (State.initial library program) where
  onTrace := ⟨⟨0, rfl⟩, Machine.placed_of_ofSource h, nofun, fun _ ha => absurd ha List.not_mem_nil⟩
  aligned := .of_nil rfl
  loading _ := ⟨rfl, Or.inl rfl⟩
  paused := nofun

/-- Before the start, a machine is as new. -/
theorem control_eq_initial (h : OnTrace s) (hstarted : s.started = false) :
    s.control = Control.initial s.program := by
  obtain ⟨n, hn⟩ := h.control
  cases n with
  | zero => exact hn
  | succ n =>
      have hcontrol : s.control = (alone s (n + 1)).control := by rw [hn, control_alone]
      have hon : s.started = true :=
        (congrArg Control.started hcontrol).trans (State.tick_started (alone s n))
      cases hstarted.symm.trans hon

/-- Choosing a program. -/
theorem select (h : Steady c s) (path : String) : Steady c (s.selectProgram path) := by
  unfold State.selectProgram
  split
  · exact h
  · rename_i hother
    have hstarted : s.started = false := Bool.eq_false_iff.2 fun hon => hother (Or.inr hon)
    have hnew := control_eq_initial h.onTrace hstarted
    have hstack : s.stack = [] := List.map_eq_nil_iff.1 (congrArg Control.stack hnew)
    split
    · rename_i program hload
      obtain ⟨source, hsource⟩ := Program.exists_source_of_load hload
      have hplaced : program.Placed := Machine.placed_of_ofSource hsource
      have hcontrol : ({ s with program, breakpoints := [] } : State).control =
          Control.initial program :=
        congrArg (fun control : Control => { control with program }) hnew
      refine ⟨⟨⟨0, hcontrol⟩, hplaced, nofun, h.onTrace.quiet⟩, .of_nil ?_, h.loading, ?_⟩
      · rw [hcontrol]
        rfl
      · intro frame hframe
        obtain ⟨-, -, top, below, hcons, -⟩ := h.paused frame hframe
        cases hstack.symm.trans hcons
    · exact h

/-- The end of a pause. -/
theorem resume (h : Steady c s) (mode : RunMode) : Steady (c.resume mode) s := by
  cases hpaused : c.stepper.paused with
  | none =>
      refine h.of_stepper_eq ?_
      simp only [Context.resume, Stepper.resume, hpaused]
  | some frame =>
      obtain ⟨-, hloaded, top, below, hstack, -, -, hlast, -⟩ := h.paused frame hpaused
      have hstepper : (c.resume mode).stepper =
          { c.stepper with hooks := Stepper.hooksFor frame mode, paused := none } := by
        simp only [Context.resume, Stepper.resume, hpaused]
      refine ⟨h.onTrace, ?_, ?_, ?_⟩
      · rw [Context.hooks, hstepper]
        intro first rest i hfirst _ hinstr _
        rw [Machine.control_stack hstack] at hfirst
        obtain ⟨rfl, -⟩ := List.cons.inj hfirst
        exact hlast.trans (congrArg (Option.map (·.location)) hinstr)
      · intro hnot
        rw [hstepper] at hnot
        cases hloaded.symm.trans hnot
      · intro other hother
        rw [hstepper] at hother
        cases hother

end Steady

namespace Reached

variable {c : Context} {s : State}

/-- A reached debugger and its machine are in step. -/
theorem steady (h : Reached c s) : Steady c s := by
  induction h with
  | start hsource => exact .initial hsource
  | select path h ih => exact ih.select path
  | serve h hserve ih =>
      obtain ⟨htouched, hstepper⟩ := touched_perform hserve
      exact ih.of_touched htouched hstepper
  | resume mode h ih => exact ih.resume mode
  | run h hrunning hrun ih => exact (ih.runWithin hrunning hrun).1

end Reached

end ScriptDebugger.Debug
