import ScriptDebugger.Proofs.Debug.BreakpointTables
import ScriptDebugger.Proofs.Wire.Lines
/-!
# What leaves the breakpoints alone

Only messages that set or remove a breakpoint change the breakpoints. Whatever else a front end
asks for, and however far the program runs, they stay, in the debugger and in the machine. The
debugger comes to know the units of the program at its first stop, and then knows all of them.

## Main results

* `undisturbed_runWithin` — a run leaves the breakpoints alone.
* `Agent.undisturbed_receive` — so does any message that sets or removes none.
* `Agent.registered_receive` — behind a stop, the units of the program are known.
-/

namespace ScriptDebugger.Debug

open Machine (State Program)
open Machine.State (Step)
open Wire (HostMessage DebuggerMessage)

/-- The program has started, and all its units are known. -/
structure Registered (b : Breakpoints) (s : State) : Prop where
  started : s.started = true
  known : b.registerAll s = b

/-- The breakpoints are the same before and behind. Where all units are known, the tables are the
same altogether. -/
structure Undisturbed (b : Breakpoints) (s : State) (b' : Breakpoints) (s' : State) : Prop where
  points : b'.points = b.points
  byPlace : b'.byPlace = b.byPlace
  lastId : b'.lastId = b.lastId
  places : s.started = true → s'.breakpoints = s.breakpoints
  program : s.started = true → s'.program = s.program
  started : s.started = true → s'.started = true
  files : Registered b s → b'.files = b.files

section

variable {b b' b'' : Breakpoints} {s s' s'' : State}

/-- What is known of the units of a program does not depend on how far it has run. -/
theorem registerAll_congr (hprogram : s'.program = s.program) (b : Breakpoints) :
    b.registerAll s' = b.registerAll s := by
  have htop : Engine.topUnits s' = Engine.topUnits s := by
    show (if s'.program.units.isEmpty then [] else [(⟨0⟩ : UnitId)]) = _
    rw [hprogram]
    rfl
  have hinfo : ∀ unit, Engine.unitInfo? s' unit = Engine.unitInfo? s unit := by
    intro unit
    show (s'.program.unit? unit).map _ = _
    rw [hprogram]
    rfl
  have hunit : Breakpoints.registerUnit s' = Breakpoints.registerUnit s := by
    funext b unit
    rw [Breakpoints.registerUnit, Breakpoints.registerUnit, hinfo]
  rw [Breakpoints.registerAll, Breakpoints.registerAll, htop, hunit]

namespace Undisturbed

theorem refl (b : Breakpoints) (s : State) : Undisturbed b s b s :=
  ⟨rfl, rfl, rfl, fun _ => rfl, fun _ => rfl, id, fun _ => rfl⟩

theorem eq_of_registered (h : Undisturbed b s b' s') (hregistered : Registered b s) : b' = b := by
  have hfiles := h.files hregistered
  have hpoints := h.points
  have hbyPlace := h.byPlace
  have hlast := h.lastId
  cases b
  cases b'
  simp_all

theorem registered (h : Undisturbed b s b' s') (hregistered : Registered b s) :
    Registered b' s' := by
  rw [h.eq_of_registered hregistered]
  refine ⟨h.started hregistered.started, ?_⟩
  rw [registerAll_congr (h.program hregistered.started), hregistered.known]

theorem trans (h : Undisturbed b s b' s') (h' : Undisturbed b' s' b'' s'') :
    Undisturbed b s b'' s'' where
  points := h'.points.trans h.points
  byPlace := h'.byPlace.trans h.byPlace
  lastId := h'.lastId.trans h.lastId
  places hstarted := (h'.places (h.started hstarted)).trans (h.places hstarted)
  program hstarted := (h'.program (h.started hstarted)).trans (h.program hstarted)
  started hstarted := h'.started (h.started hstarted)
  files hregistered :=
    (h'.files (h.registered hregistered)).trans (h.files hregistered)

/-- A change of the machine alone. -/
theorem of_engine (hplaces : s'.breakpoints = s.breakpoints) (hprogram : s'.program = s.program)
    (hstarted : s.started = true → s'.started = true) : Undisturbed b s b s' :=
  ⟨rfl, rfl, rfl, fun _ => hplaces, fun _ => hprogram, hstarted, fun _ => rfl⟩

end Undisturbed

end

/-! ## Runs -/

variable {c c' d : Context} {s t : State} {fuel : Nat}

/-- Registering once more adds nothing. -/
theorem registered_registerAll {b : Breakpoints} (h : Coherent b s) (hstarted : s.started = true) :
    Registered (b.registerAll s) s := by
  refine ⟨hstarted, ?_⟩
  have hfiles := h.files.imp_right And.right
  rcases registerAll_cases hfiles with hsame | hknown
  · rw [hsame, hsame]
  · rw [hknown]
    have hagain : ({ b with files := [(s.program.url, [⟨0⟩])] } : Breakpoints).files = [] ∨
        ({ b with files := [(s.program.url, [⟨0⟩])] } : Breakpoints).files =
          [(s.program.url, [⟨0⟩])] := Or.inr rfl
    rcases registerAll_cases hagain with hsame | hsame
    · exact hsame
    · exact hsame

/-- Taking an event. -/
theorem undisturbed_onEvent (hcoherent : Coherent c.breakpoints s) {event : Event}
    {stop : Option Stop} (hevent : c.onEvent s event = (d, stop)) :
    Undisturbed c.breakpoints s d.breakpoints s := by
  have hbreakpoints := onEvent_breakpoints c s event
  rw [hevent] at hbreakpoints
  rcases hbreakpoints with hsame | hregister
  · rw [show d.breakpoints = c.breakpoints from hsame]
    exact .refl _ _
  · rw [show d.breakpoints = c.breakpoints.registerAll s from hregister]
    rcases registerAll_cases (hcoherent.files.imp_right And.right) with hsame | hknown
    · rw [hsame]
      exact .refl _ _
    · refine ⟨?_, ?_, ?_, fun _ => rfl, fun _ => rfl, id, fun hregistered => ?_⟩
      · rw [hknown]
      · rw [hknown]
      · rw [hknown]
      · rw [hregistered.known]

/-- A small step of the machine. -/
theorem undisturbed_advance {hooks : Hooks} {event : Option Event} {b : Breakpoints}
    (hcoherent : Coherent b s) (hadvance : Engine.advance hooks s = (t, event)) :
    Undisturbed b s b t ∧ Coherent b t ∧ t.started = true := by
  have hstep := Machine.State.step_of_advance hadvance
  exact ⟨.of_engine hstep.breakpoints_eq hstep.program_eq fun _ => hstep.started,
    hcoherent.of_kept hstep.breakpoints_eq hstep.program_eq fun _ => hstep.started, hstep.started⟩

/-- A run leaves the breakpoints alone, and comes to a stop with all units known. -/
theorem undisturbed_runWithin {stop : Option Stop}
    (h : c.runWithin fuel s = some (c', t, stop)) (hcoherent : Coherent c.breakpoints s) :
    Undisturbed c.breakpoints s c'.breakpoints t ∧
      (stop ≠ none → Registered c'.breakpoints t) := by
  refine runWithin_induct (P := fun c s => Coherent c.breakpoints s →
      Undisturbed c.breakpoints s c'.breakpoints t ∧
        (stop ≠ none → Registered c'.breakpoints t))
    (fun c s next hadvance ih hcoherent => ?_) (fun s hnone hadvance hcoherent => ?_)
    (fun c d s next event _ hadvance hevent ih hcoherent => ?_)
    (fun c s event reason _ hsome hadvance hevent hcoherent => ?_) h hcoherent
  · obtain ⟨hstep, hnext, -⟩ := undisturbed_advance hcoherent hadvance
    obtain ⟨hrest, hregistered⟩ := ih hnext
    exact ⟨hstep.trans hrest, hregistered⟩
  · exact ⟨(undisturbed_advance hcoherent hadvance).1, fun hne => absurd hnone hne⟩
  · obtain ⟨hstep, hnext, -⟩ := undisturbed_advance hcoherent hadvance
    have htaken := undisturbed_onEvent hnext hevent
    obtain ⟨hrest, hregistered⟩ := ih (hcoherent.change (Move.change (.event hadvance hevent)))
    exact ⟨(hstep.trans htaken).trans hrest, hregistered⟩
  · obtain ⟨hstep, hnext, hstarted⟩ := undisturbed_advance hcoherent hadvance
    refine ⟨hstep.trans (undisturbed_onEvent hnext hevent), fun _ => ?_⟩
    have hregister : c'.breakpoints = c.breakpoints.registerAll t := by
      rw [Context.onEvent] at hevent
      split at hevent
      · cases (Prod.mk.inj hevent).2
      · rw [← (Prod.mk.inj hevent).1]
    rw [hregister]
    exact registered_registerAll hnext hstarted

/-! ## Messages -/

theorem undisturbed_selectProgram (b : Breakpoints) (s : State) (path : String) :
    Undisturbed b s b (s.selectProgram path) := by
  by_cases hstarted : s.started = true
  · have hsame : s.selectProgram path = s := by
      rw [State.selectProgram, if_pos (Or.inr hstarted)]
    rw [hsame]
    exact .refl b s
  · exact ⟨rfl, rfl, rfl, fun h => absurd h hstarted, fun h => absurd h hstarted,
      fun h => absurd h hstarted, fun _ => rfl⟩

/-- What carrying out a message that sets and removes no breakpoint leaves. -/
theorem undisturbed_perform (c : Context) (s : State) {message : HostMessage}
    (hmessage : ¬message.ChangesBreakpoints) :
    Undisturbed c.breakpoints s (Agent.perform c s message).1.breakpoints
      (Agent.perform c s message).2.1 := by
  cases message with
  | setBreakpoint | removeBreakpoint => exact absurd trivial hmessage
  | loadProgram path => exact undisturbed_selectProgram c.breakpoints s path
  | getVariables reference =>
      simp only [Agent.perform, Context.variablesBehind_eq]
      cases c.entriesBehind s reference with
      | error e => exact .refl _ _
      | ok entries => exact .refl _ _
  | setVariable reference name value =>
      obtain ⟨htables, hplaces, hcontrol⟩ := perform_setVariable_kept c s reference name value
      rw [htables]
      exact .of_engine hplaces (congrArg Machine.Control.program hcontrol)
        (congrArg Machine.Control.started hcontrol).trans
  | _ => exact .refl _ _

namespace Agent

variable {a b : Agent State} {sent : List DebuggerMessage} {message : HostMessage}

/-- Letting the program go on leaves the breakpoints alone. Behind a stop all units are known. -/
theorem undisturbed_go (hcoherent : Coherent a.context.breakpoints a.engine) {mode : RunMode}
    (h : a.go fuel mode = some (b, sent)) :
    Undisturbed a.context.breakpoints a.engine b.context.breakpoints b.engine ∧
      (b.phase ≠ .finished → Registered b.context.breakpoints b.engine) := by
  have hleave : (a.leave mode).context.breakpoints = a.context.breakpoints := by
    unfold leave
    split
    · rfl
    · rfl
    · rfl
  obtain ⟨stop, hrun, hstop⟩ := go_inv h
  rw [← hleave] at hcoherent
  obtain ⟨hrest, hregistered⟩ := undisturbed_runWithin hrun hcoherent
  rw [hleave] at hrest
  refine ⟨hrest, fun hphase => hregistered ?_⟩
  rcases hstop with ⟨-, hfinished, -⟩ | ⟨reason, rfl, -⟩
  · exact absurd hfinished hphase
  · exact Option.some_ne_none reason

/-- A message that sets and removes no breakpoint leaves the breakpoints alone. -/
theorem undisturbed_receive (hcoherent : Coherent a.context.breakpoints a.engine)
    (hmessage : ¬message.ChangesBreakpoints) (h : a.receive fuel message = some (b, sent)) :
    Undisturbed a.context.breakpoints a.engine b.context.breakpoints b.engine := by
  rcases receive_inv h with ⟨mode, s, hchosen, hgo⟩ | ⟨reply, hperform, -⟩
  · have hfirst : Undisturbed a.context.breakpoints a.engine a.context.breakpoints s ∧
        Coherent a.context.breakpoints s := by
      rcases hchosen with rfl | ⟨path, rfl⟩
      · exact ⟨.refl _ _, hcoherent⟩
      · exact ⟨undisturbed_selectProgram _ _ path, hcoherent.of_selected path⟩
    exact hfirst.1.trans (undisturbed_go (a := { a with engine := s }) hfirst.2 hgo).1
  · have hkept := undisturbed_perform a.context a.engine hmessage
    rw [hperform] at hkept
    exact hkept

/-- The choice of a program lets it run to its first stop, behind which its units are known. -/
theorem registered_receive (hcoherent : Coherent a.context.breakpoints a.engine) {path : String}
    (h : a.receive fuel (.loadProgram path) = some (b, sent)) (hphase : b.phase ≠ .finished) :
    Registered b.context.breakpoints b.engine := by
  have hselected : Coherent a.context.breakpoints (Engine.selectProgram a.engine path) :=
    hcoherent.of_selected path
  exact (undisturbed_go (a := { a with engine := Engine.selectProgram a.engine path }) hselected
    h).2 hphase

end Agent

end ScriptDebugger.Debug
