import ScriptDebugger.Proofs.Machine.SmallStep
/-!
# A machine that keeps a record

A machine together with the list of the instructions that it executed. To a debugger the recorder is
the machine: all operations are those of the machine, and a small step that executes an instruction
also writes it down.

The way to the end of a program is measured in ticks. `LeadsTo n r t` says that `n` ticks from `r`
the recorder is `t`, which is finished; breakpoints are left out of the comparison. Every small step
under hooks either uses up one of the ticks, or reports the end of a frame and leaves the tick to
the step behind it.

## Main results

* `runs_record` — a run to the end executes one sequence of instructions.
* `progress` — what one small step under any hooks does for the way to the end.
-/

namespace ScriptDebugger.Machine

/-- The execution of one instruction. -/
structure Execution where
  /-- The frame that runs. -/
  frame : FrameId
  /-- Its unit. -/
  unit : UnitId
  /-- The offset of the instruction in the unit. -/
  offset : Nat
  deriving DecidableEq, Repr

/-- The instruction that the next small step executes, if it executes one. -/
def State.execution? (s : State) : Option Execution :=
  match s.stack with
  | [] => none
  | top :: _ =>
    if s.started && top.entered && top.boundarySeen &&
        (s.program.instruction? top.unit top.pc).isSome then
      some ⟨top.id, top.unit, top.pc⟩
    else none

/-- A machine and the instructions that it executed, in order. -/
structure Recorded where
  /-- The machine. -/
  state : State
  /-- What it executed, the oldest first. -/
  executed : List Execution := []

instance : Engine Recorded where
  advance hooks r :=
    (⟨(Engine.advance hooks r.state).1, r.executed ++ r.state.execution?.toList⟩,
      (Engine.advance hooks r.state).2)
  topUnits r := Engine.topUnits r.state
  unitInfo? r := Engine.unitInfo? r.state
  childUnits r := Engine.childUnits r.state
  unitCount r := Engine.unitCount r.state
  breakpointOffsets r := Engine.breakpointOffsets r.state
  location? r := Engine.location? r.state
  setBreakpoint r unit offset := { r with state := Engine.setBreakpoint r.state unit offset }
  clearBreakpoint r unit offset := { r with state := Engine.clearBreakpoint r.state unit offset }
  frame? r := Engine.frame? r.state
  bindingNames r := Engine.bindingNames r.state
  binding? r := Engine.binding? r.state
  setBinding r frame name value :=
    (Engine.setBinding r.state frame name value).map fun state => { r with state }
  globalObject r := Engine.globalObject r.state
  objectClass? r := Engine.objectClass? r.state
  propertyNames r := Engine.propertyNames r.state
  property? r := Engine.property? r.state
  setProperty r id name value :=
    (Engine.setProperty r.state id name value).map fun state => { r with state }
  importValue r json :=
    ({ r with state := (Engine.importValue r.state json).1 }, (Engine.importValue r.state json).2)
  selectProgram r url := { r with state := Engine.selectProgram r.state url }

namespace Recorded

/-! ## The run under no hooks -/

/-- Runs the program to its end, past any breakpoint, in at most `fuel` small steps. -/
def runWithin : (fuel : Nat) → Recorded → Option Recorded
  | 0, _ => none
  | fuel + 1, r =>
    match Engine.advance .none r with
    | (r, some .finished) => some r
    | (r, _) => runWithin fuel r

/-- Running `r` to its end, past any breakpoint, leaves `t`. -/
def Runs (r t : Recorded) : Prop := ∃ fuel, runWithin fuel r = some t

/-- One small step under no hooks. -/
def tick (r : Recorded) : Recorded := (Engine.advance .none r).1

/-- The recorder after some ticks. -/
def after (r : Recorded) : Nat → Recorded
  | 0 => r
  | n + 1 => r.tick.after n

/-- The recorder without breakpoints. -/
def bare (r : Recorded) : Recorded := { r with state := r.state.withBreakpoints [] }

theorem bare_tick (r : Recorded) : r.tick.bare = r.bare.tick := by
  have hstate : r.tick.state.withBreakpoints [] = (r.state.withBreakpoints []).tick :=
    (State.tick_withBreakpoints r.state []).symm
  exact congrArg (fun state => (⟨state, r.executed ++ r.state.execution?.toList⟩ : Recorded)) hstate

/-- The machine of a recorder runs as it would alone. -/
theorem runWithin_state (fuel : Nat) (r : Recorded) :
    (runWithin fuel r).map state = State.runWithin fuel r.state := by
  induction fuel generalizing r with
  | zero => rfl
  | succ fuel ih =>
      have hadvance : Engine.advance .none r =
          (⟨(State.advance .none r.state).1, r.executed ++ r.state.execution?.toList⟩,
            (State.advance .none r.state).2) := rfl
      rw [runWithin, State.runWithin, hadvance]
      rcases State.advance .none r.state with ⟨next, _ | event⟩
      · exact ih _
      · cases event with
        | finished => rfl
        | _ => exact ih _

/-- A run to the end executes one sequence of instructions. -/
theorem runs_record {s t : State} (h : s.Runs t) : ∃ executed, Runs ⟨s, []⟩ ⟨t, executed⟩ := by
  obtain ⟨fuel, hfuel⟩ := h
  have hrecorded := runWithin_state fuel ⟨s, []⟩
  rw [hfuel] at hrecorded
  obtain ⟨r, hr, rfl⟩ := Option.map_eq_some_iff.1 hrecorded
  exact ⟨r.executed, fuel, hr⟩

/-! ## The way to the end -/

/-- Nothing is left to run. -/
structure Finished (r : Recorded) : Prop where
  started : r.state.started = true
  stack : r.state.stack = []
  deferred : r.state.deferred = []

namespace Finished

variable {r : Recorded}

theorem bare (h : Finished r) : Finished r.bare := ⟨h.started, h.stack, h.deferred⟩

theorem advance (h : Finished r) (hooks : Hooks) :
    Engine.advance hooks r = (r, some .finished) := by
  have hstate : State.advance hooks r.state = (r.state, some .finished) := by
    simp [State.advance, h.started, h.stack, State.advanceIdle, h.deferred]
  have hexecution : r.state.execution? = none := by rw [State.execution?, h.stack]
  change ((⟨(State.advance hooks r.state).1, r.executed ++ r.state.execution?.toList⟩ : Recorded),
    (State.advance hooks r.state).2) = _
  rw [hstate, hexecution, Option.toList_none, List.append_nil]

theorem after (h : Finished r) (n : Nat) : r.after n = r := by
  induction n with
  | zero => rfl
  | succ n ih => rw [Recorded.after, tick, h.advance, ih]

end Finished

/-- `n` ticks from `r`, the recorder is `t`, and finished; breakpoints are left out. -/
structure LeadsTo (n : Nat) (r t : Recorded) : Prop where
  after : r.bare.after n = t
  finished : Finished t

namespace LeadsTo

variable {n : Nat} {r r' t : Recorded}

theorem of_bare_eq (h : LeadsTo n r t) (hbare : r'.bare = r.bare) : LeadsTo n r' t :=
  ⟨hbare ▸ h.after, h.finished⟩

theorem of_finished (h : Finished r) : LeadsTo 0 r r.bare := ⟨rfl, h.bare⟩

theorem bare_eq (h : LeadsTo n r t) (hfinished : Finished r) : r.bare = t := by
  rw [← h.after, hfinished.bare.after]

theorem tick (h : LeadsTo (n + 1) r t) : LeadsTo n r.tick t :=
  ⟨by rw [bare_tick]; exact h.after, h.finished⟩

end LeadsTo

/-! ## One small step under hooks -/

theorem advance_eq (hooks : Hooks) (r : Recorded) :
    Engine.advance hooks r =
      (⟨(State.advance hooks r.state).1, r.executed ++ r.state.execution?.toList⟩,
        (State.advance hooks r.state).2) := rfl

/-- At its end a frame executes nothing. -/
theorem execution?_eq_none {s : State} {top : Activation} {below : List Activation}
    (hstack : s.stack = top :: below) (hend : s.program.instruction? top.unit top.pc = none) :
    s.execution? = none := by
  simp [State.execution?, hstack, hend]

/-- The progress of one small step under hooks. Only the report of a frame's end does not use up a
tick; the step behind it does, under whatever hooks it is taken. -/
inductive Progress (hooks : Hooks) (r : Recorded) : Prop
  | finish (hfinished : Finished r)
  | tick (event : Option Event) (hopen : ¬Finished r) (hfinish : event ≠ some .finished)
      (hpop : ∀ frame, event ≠ some (.pop frame))
      (hadvance : Engine.advance hooks r = (r.tick, event))
  | pop (next : Recorded) (frame : FrameId) (hopen : ¬Finished r)
      (hadvance : Engine.advance hooks r = (next, some (.pop frame)))
      (hbehind : ∀ hooks', Engine.advance hooks' next = (r.tick, none))

theorem progress (hooks : Hooks) (r : Recorded) : Progress hooks r := by
  by_cases hopen : Finished r
  · exact .finish hopen
  rcases hadvance : State.advance hooks r.state with ⟨next, event⟩
  have hstep := State.step_of_advance hadvance
  have hfinish : event ≠ some .finished := by
    rintro rfl
    obtain ⟨-, hstarted, hstack, hdeferred⟩ := hstep.finish_inv
    exact hopen ⟨hstarted, hstack, hdeferred⟩
  by_cases hpop : ∃ frame, event = some (.pop frame)
  · obtain ⟨frame, rfl⟩ := hpop
    refine .pop ⟨next, r.executed ++ r.state.execution?.toList⟩ frame hopen ?_ fun hooks' => ?_
    · rw [advance_eq, hadvance]
    · obtain ⟨top, below, hstarted, hstack, -, hend, -, -, rfl⟩ := hstep.pop_inv
      have hbefore := execution?_eq_none hstack hend
      have hbehind := execution?_eq_none
        (s := { r.state with stack := { top with popReported := true } :: below }) rfl hend
      rw [advance_eq, hstep.advance_of_pop hooks', hbehind, hbefore]
      simp only [Option.toList_none, List.append_nil]
      rw [Recorded.tick, advance_eq, hbefore, Option.toList_none, List.append_nil]
      rfl
  · have hpop : ∀ frame, event ≠ some (.pop frame) := fun frame h => hpop ⟨frame, h⟩
    refine .tick event hopen hfinish hpop ?_
    rw [advance_eq, hadvance, hstep.eq_tick hpop]
    rfl

/-- Where the end is not reached, a tick brings it nearer. -/
theorem LeadsTo.tick_of_not_finished {n : Nat} {r t : Recorded} (h : LeadsTo n r t)
    (hopen : ¬Finished r) : ∃ m, n = m + 1 ∧ LeadsTo m r.tick t := by
  cases n with
  | succ m => exact ⟨m, rfl, h.tick⟩
  | zero =>
      have hbare : r.bare = t := h.after
      have hfinished : Finished r.bare := hbare ▸ h.finished
      exact absurd ⟨hfinished.started, hfinished.stack, hfinished.deferred⟩ hopen

/-- A run to the end takes some number of ticks. -/
theorem Runs.leadsTo {r t : Recorded} (h : Runs r t) : ∃ n, LeadsTo n r t.bare := by
  obtain ⟨fuel, hfuel⟩ := h
  induction fuel generalizing r with
  | zero => cases hfuel
  | succ fuel ih =>
      rw [runWithin] at hfuel
      cases progress .none r with
      | finish hfinished =>
          rw [hfinished.advance] at hfuel
          obtain rfl : r = t := by simpa using hfuel
          exact ⟨0, .of_finished hfinished⟩
      | tick event hopen hfinish hpop hadvance =>
          rw [hadvance] at hfuel
          obtain ⟨n, hn⟩ : ∃ n, LeadsTo n r.tick t.bare := by
            rcases event with _ | event
            · exact ih hfuel
            · cases event with
              | finished => exact absurd rfl hfinish
              | _ => exact ih hfuel
          exact ⟨n + 1, by rw [after, ← bare_tick]; exact hn.after, hn.finished⟩
      | pop next frame hopen hadvance hbehind =>
          have hstate : State.advance .none r.state = (next.state, some (.pop frame)) :=
            Prod.ext (congrArg (·.1.state) hadvance) (congrArg (·.2) hadvance)
          obtain ⟨top, below, -, -, -, -, hhook, -⟩ := (State.step_of_advance hstate).pop_inv
          cases hhook

end Recorded

end ScriptDebugger.Machine
