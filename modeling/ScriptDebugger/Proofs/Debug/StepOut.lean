import ScriptDebugger.Proofs.Debug.Stepping
/-!
# Where to step out lands

To step out waits for the end of the paused frame. The end is reported, and the debugger then waits
for the caller's next boundary, or for the entry of the next frame where there is no caller.

The boundary behind the call is never taken for the remembered place. The paused frame has returned,
so its tree of calls is finite, and the caller runs another unit; another unit has other places.

## Main results

* `Turn.ofPop` — the turn in which the paused frame ends.
* `resume_out_lands` — to step out lands behind the call, or in the next outermost frame.
-/

namespace ScriptDebugger.Debug

open Machine (State Activation Control ControlFrame Program Point)
open Source (Instruction)

/-! ## On the way to the end of the frame -/

/-- A tick that passes the boundary of an instruction with a breakpoint. -/
def BreaksAt (s r : State) : Prop :=
  ∃ frame unit offset, r.control.point? = some (.boundary frame unit offset) ∧
    s.hasBreakpoint unit offset = true

/-- Where only the end of a frame is waited for, a turn is quiet that neither passes a breakpoint
nor comes to that end. -/
theorem Turn.ofWaiting {c : Context} {s r : State} {frame : FrameId}
    (hhooks : c.hooks = Hooks.none.install frame .pop)
    (hbreakpoints : r.breakpoints = s.breakpoints) (hopen : r.isFinished = false)
    (hstay : ¬r.control.AtEnd frame) (hbreak : ¬BreaksAt s r) :
    Turn c r c none := by
  rcases hadvance : r.advance c.hooks with ⟨t, event⟩
  have hstep := State.step_of_advance hadvance
  have hpop : ∀ other, event ≠ some (.pop other) := by
    rintro other rfl
    obtain ⟨top, below, -, hstack, hentered, hend, hhook, -⟩ := hstep.pop_inv
    rw [hhooks] at hhook
    obtain ⟨hid, -⟩ := (action_install_iff frame top.id .pop .pop).1 hhook
    exact hstay ⟨top.control, _, Machine.control_stack hstack, hid, hentered, hend⟩
  obtain rfl := hstep.eq_tick hpop
  suffices hnone : event = none by
    rw [hnone] at hadvance
    exact .silent hadvance
  generalize hnext : r.tick = next at hstep
  cases hstep with
  | finish hstarted hstack hdeferred =>
      simp [State.isFinished, hstarted, hstack, hdeferred] at hopen
  | report => exact absurd rfl (hpop _)
  | enter =>
      rw [hhooks]
      rfl
  | consider hstarted hstack hentered hinstr hseen =>
      rename_i top below i
      unfold State.boundaryEvent
      split
      · rename_i hset
        rw [State.hasBreakpoint, hbreakpoints] at hset
        exact absurd ⟨_, _, _, point?_boundary hstarted hstack hentered hinstr hseen, hset⟩ hbreak
      · split
        · rename_i hhook
          rw [hhooks] at hhook
          obtain ⟨-, hstepping⟩ := (action_install_iff frame top.id .pop .step).1 hhook
          cases hstepping
        · rfl
  | _ => rfl

/-! ## The end of the frame -/

/-- The turn in which the frame that is waited for ends. The caller is hooked then, or the entry of
the next frame. -/
theorem Turn.ofPop {c : Context} {r : State} {top : Activation} {below : List Activation}
    (hhooks : c.hooks = Hooks.none.install top.id .pop) (hstarted : r.started = true)
    (hstack : r.stack = top :: below) (hentered : top.entered = true)
    (hend : r.program.instruction? top.unit top.pc = none) (hreported : top.popReported = false) :
    ∃ c', Turn c r c' none ∧ c'.stepper.loaded = c.stepper.loaded ∧
      c'.stepper.lastLocation = c.stepper.lastLocation ∧
      (∀ caller rest, below = caller :: rest → c'.hooks = Hooks.none.install caller.id .step) ∧
      (below = [] → c'.hooks = { onEnter := true }) := by
  have hhook : c.hooks.action top.id = some .pop := by
    rw [hhooks, Hooks.action_install_self]
  obtain ⟨t, ht⟩ : ∃ t : State,
      t = { r with stack := { top with popReported := true } :: below } := ⟨_, rfl⟩
  have hadvance : r.advance c.hooks = (t, some (.pop top.id)) := by
    rw [ht]
    simp [State.advance, State.advanceFrame, hstarted, hstack, hentered, hend, hreported, hhook]
  have hbehind : ∀ hooks, t.advance hooks = (r.tick, none) := fun hooks =>
    (State.step_of_advance hadvance).advance_of_pop hooks
  rcases hevent : c.onEvent t (.pop top.id) with ⟨c', stop⟩
  obtain ⟨hstepper, hstop⟩ := stepper_of_onEvent hevent
  rw [Stepper.onEvent, if_neg (fun hnot => hnot hhook)] at hstepper hstop
  obtain rfl : stop = none := hstop
  have hremoved : c.stepper.hooks.remove top.id = .none := by
    change c.hooks.remove top.id = .none
    rw [hhooks]
    simp [Hooks.install, Hooks.remove, Hooks.none]
  have holder : (Engine.frame? t top.id).bind (·.older) = below.head?.map (·.id) := by
    rw [ht]
    exact older_top { top with popReported := true } rfl
  refine ⟨c', .pop hadvance hbehind hevent, ?_, ?_, ?_, ?_⟩
  · rw [hstepper, Stepper.leave]
    split <;> rfl
  · rw [hstepper, Stepper.leave]
    split <;> rfl
  · rintro caller rest rfl
    rw [Context.hooks, hstepper, Stepper.leave, holder, hremoved]
    rfl
  · rintro rfl
    rw [Context.hooks, hstepper, Stepper.leave, holder, hremoved]
    rfl

/-! ## Behind the end -/

section

variable {c : Context} {r : State} {top : Activation} {below : List Activation}

/-- A hooked frame stops at a boundary away from the remembered place. -/
theorem Turn.ofBoundary {i : Instruction} (hstarted : r.started = true)
    (hstack : r.stack = top :: below) (hentered : top.entered = true)
    (hinstr : r.program.instruction? top.unit top.pc = some i) (hseen : top.boundarySeen = false)
    (hhook : c.hooks.action top.id = some .step)
    (hmoved : some i.location ≠ c.stepper.lastLocation) :
    ∃ c', Turn c r c' (some (stopAt r (.boundary top.id top.unit top.pc))) := by
  have hadvance : r.advance c.hooks = (r.tick, r.boundaryEvent c.hooks top) := by
    rw [State.tick_consider hstarted hstack hentered hinstr hseen]
    simp [State.advance, State.advanceFrame, hstarted, hstack, hentered, hinstr, hseen,
      State.boundaryEvent]
  unfold State.boundaryEvent at hadvance
  rw [stopAt]
  split at hadvance
  · rename_i hset
    rw [if_pos hset]
    exact Turn.of_breakpoint hadvance
  · rename_i hset
    rw [if_neg hset]
    have htick : r.tick.stack = { top with boundarySeen := true } :: below := by
      rw [State.tick_consider hstarted hstack hentered hinstr hseen]
    have hinstr' : r.tick.program.instruction? top.unit top.pc = some i := by
      rw [State.tick_program]
      exact hinstr
    have hlocation : locationOf r.tick top.id = some i.location :=
      (locationOf_of_instruction htick hinstr' :)
    exact Turn.of_step hadvance hhook (by rwa [hlocation])

/-- The entry of a frame stops where it is waited for. -/
theorem Turn.ofEntry (hstarted : r.started = true) (hstack : r.stack = top :: below)
    (hentered : top.entered = false) (honEnter : c.hooks.onEnter = true)
    (hloaded : c.stepper.loaded = true) :
    ∃ c', Turn c r c' (some (stopAt r (.entry top.id))) := by
  have hadvance : r.advance c.hooks = (r.tick, some (.enterFrame top.id)) := by
    rw [State.tick_enter hstarted hstack hentered]
    simp [State.advance, State.advanceFrame, hstarted, hstack, hentered, honEnter]
  exact Turn.of_enter hadvance honEnter hloaded

/-- A deferred call starts without an event. -/
theorem Turn.ofUnqueue (hstarted : r.started = true) (hstack : r.stack = [])
    {call : Machine.DeferredCall} {rest : List Machine.DeferredCall}
    (hdeferred : r.deferred = call :: rest) : Turn c r c none := by
  refine .silent ?_
  rw [State.tick_unqueue hstarted hstack hdeferred]
  simp [State.advance, State.advanceIdle, hstarted, hstack, hdeferred]

end

/-! ## To step out -/

/-- The frame on top of `s` has come to its end in `r`, which is some ticks behind `s`, and to step
out goes on from there. -/
structure Returned (c : Context) (s r : State) (top : Activation) (below : List Activation) :
    Prop where
  onTrace : OnTrace r
  program : r.program = s.program
  breakpoints : r.breakpoints = s.breakpoints
  hooks : c.hooks = Hooks.none.install top.id .pop
  loaded : c.stepper.loaded = true
  last : c.stepper.lastLocation = (s.program.instruction? top.unit top.pc).map (·.location)
  stack : ∃ f rest, r.stack = f :: rest ∧ f.id = top.id ∧ f.unit = top.unit ∧ f.entered = true ∧
    r.program.instruction? f.unit f.pc = none ∧
    rest.map Activation.control = below.map Activation.control

namespace Returned

variable {c : Context} {s r : State} {top : Activation} {below : List Activation}

/-- The caller stops behind the call. -/
theorem caller (h : Returned c s r top below) {caller : Activation} {rest : List Activation}
    (hbelow : below = caller :: rest) {i : Instruction}
    (hinstr : s.program.instruction? caller.unit (caller.pc + 1) = some i) :
    ∃ fuel c', c.runWithin fuel r =
        some (c', r.tick.tick, some (stopAt s (.boundary caller.id caller.unit (caller.pc + 1)))) ∧
      r.tick.control.point? = some (.boundary caller.id caller.unit (caller.pc + 1)) := by
  obtain ⟨f, others, hstack, hid, hunit, hentered, hend, hothers⟩ := h.stack
  subst hbelow
  obtain ⟨caller', rest', rfl, hcaller, -⟩ := List.map_eq_cons_iff.1 hothers
  have hcallerId : caller'.id = caller.id := congrArg ControlFrame.id hcaller
  have hcallerUnit : caller'.unit = caller.unit := congrArg ControlFrame.unit hcaller
  have hcallerPc : caller'.pc = caller.pc := congrArg ControlFrame.pc hcaller
  have hstarted := h.onTrace.started hstack
  have hcontrol := Machine.control_stack hstack
  rw [List.map_cons] at hcontrol
  obtain ⟨hwaits, -⟩ := h.onTrace.sound.nested _ _ hcontrol
  have hother : caller'.unit ≠ f.unit := h.onTrace.sound.caller_unit_ne hcontrol hend
  have hquiet := h.onTrace.quiet f (hstack ▸ List.mem_cons_self)
  have hhooks := h.hooks
  rw [← hid] at hhooks
  obtain ⟨c₁, hpop, hloaded, hlast, hhooked, -⟩ :=
    Turn.ofPop hhooks hstarted hstack hentered hend hquiet
  -- The machine behind the end of the frame.
  have htick : r.tick = r.pop := State.tick_leave hstarted hstack hentered hend
  have hnext : r.tick.stack = { caller'.next with awaitingReturn := false } :: rest' := by
    rw [htick, State.pop, hstack, List.tail_cons, State.resumeCaller]
    exact if_pos hwaits.awaiting
  have hstarted' : r.tick.started = true := State.tick_started r
  have hprogram : r.tick.program = s.program := r.tick_program.trans h.program
  have hinstr' : r.tick.program.instruction? caller'.unit (caller'.pc + 1) = some i := by
    rw [hprogram, hcallerUnit, hcallerPc]
    exact hinstr
  have hpoint := point?_boundary hstarted' hnext hwaits.entered hinstr' rfl
  have hmoved : some i.location ≠ c₁.stepper.lastLocation := by
    rw [hlast, h.last]
    intro hsame
    have hplaced : s.program.Placed := h.program ▸ h.onTrace.placed
    have hstill := (location_eq_last_iff hplaced hinstr).1 hsame
    exact hother (hcallerUnit.trans (hstill.1.trans hunit.symm))
  have hhook : c₁.hooks.action caller'.id = some .step := by
    rw [hhooked caller' rest' rfl, Hooks.action_install_self]
  obtain ⟨c₂, hstop⟩ :=
    Turn.ofBoundary hstarted' hnext hwaits.entered hinstr' rfl hhook hmoved
  have hat : stopAt r.tick (.boundary caller'.id caller'.unit (caller'.pc + 1)) =
      stopAt s (.boundary caller.id caller.unit (caller.pc + 1)) := by
    rw [stopAt, stopAt, State.hasBreakpoint, State.hasBreakpoint, State.tick_breakpoints,
      h.breakpoints, hcallerId, hcallerUnit, hcallerPc]
  obtain ⟨used, -, hrest⟩ := runWithin_of_turn hpop
  refine ⟨1 + used, c₂, ?_, ?_⟩
  · rw [hrest, ← hat]
    exact runWithin_of_stop hstop 0
  · rw [← hcallerId, ← hcallerUnit, ← hcallerPc]
    exact hpoint

/-- Without a caller nothing is on the stack behind the end. -/
theorem outermost (h : Returned c s r top below) (hbelow : below = []) :
    ∃ c₁, Turn c r c₁ none ∧ c₁.stepper.loaded = true ∧ c₁.hooks = { onEnter := true } ∧
      r.tick.started = true ∧ r.tick.stack = [] ∧ r.tick.deferred = r.deferred ∧
      r.tick.nextFrame = r.nextFrame := by
  obtain ⟨f, others, hstack, hid, -, hentered, hend, hothers⟩ := h.stack
  subst hbelow
  obtain rfl : others = [] := List.map_eq_nil_iff.1 hothers
  have hstarted := h.onTrace.started hstack
  have hquiet := h.onTrace.quiet f (hstack ▸ List.mem_cons_self)
  have hhooks := h.hooks
  rw [← hid] at hhooks
  obtain ⟨c₁, hpop, hloaded, -, -, honEnter⟩ :=
    Turn.ofPop hhooks hstarted hstack hentered hend hquiet
  have htick : r.tick = r.pop := State.tick_leave hstarted hstack hentered hend
  refine ⟨c₁, hpop, hloaded.trans h.loaded, honEnter rfl, State.tick_started r, ?_, ?_, ?_⟩
  · rw [htick, State.pop, hstack]
    rfl
  · rw [htick]
    rfl
  · rw [htick]
    rfl

/-- Where nothing is deferred, the program ends. -/
theorem finish (h : Returned c s r top below) (hbelow : below = []) (hdeferred : r.deferred = []) :
    ∃ fuel c', c.runWithin fuel r = some (c', r.tick, none) := by
  obtain ⟨c₁, hpop, -, -, hstarted, hstack, hsame, -⟩ := h.outermost hbelow
  have hfinished : r.tick.isFinished = true := by
    rw [State.isFinished, hstarted, hstack, hsame, hdeferred]
    rfl
  obtain ⟨used, -, hrest⟩ := runWithin_of_turn hpop
  refine ⟨1 + used, c₁, ?_⟩
  rw [hrest]
  exact runWithin_finished c₁ hfinished 0

/-- The frame of the oldest deferred call is entered. -/
theorem nextOutermost (h : Returned c s r top below) (hbelow : below = [])
    {call : Machine.DeferredCall} {calls : List Machine.DeferredCall}
    (hdeferred : r.deferred = call :: calls) :
    ∃ fuel c', c.runWithin fuel r =
        some (c', r.tick.tick.tick, some (stopAt s (.entry ⟨r.nextFrame⟩))) ∧
      r.tick.tick.control.point? = some (.entry ⟨r.nextFrame⟩) ∧
      r.tick.tick.tick.control.stack =
        [{ ControlFrame.fresh r.nextFrame call.unit with entered := true }] := by
  obtain ⟨c₁, hpop, hloaded, hhooks, hstarted, hstack, hsame, hnumber⟩ := h.outermost hbelow
  have hqueue := hsame.trans hdeferred
  have hknown : (r.tick.program.unit? call.unit).isSome := by
    refine h.onTrace.tick.sound.known call.unit ?_
    rw [State.control, hqueue]
    exact List.mem_cons_self
  obtain ⟨code, hcode⟩ := Option.isSome_iff_exists.1 hknown
  have htick := State.tick_unqueue hstarted hstack hqueue
  obtain ⟨g, hg, hfresh⟩ : ∃ g : Activation, r.tick.tick.stack = [g] ∧
      g.control = .fresh r.nextFrame call.unit := by
    rw [htick]
    simp only [State.push, hcode, hstack, hnumber]
    exact ⟨_, rfl, rfl⟩
  have hid : g.id = ⟨r.nextFrame⟩ := congrArg ControlFrame.id hfresh
  have hentered : g.entered = false := congrArg ControlFrame.entered hfresh
  have hstarted' : r.tick.tick.started = true := State.tick_started r.tick
  have hqueued : Turn c₁ r.tick c₁ none := Turn.ofUnqueue hstarted hstack hqueue
  have honEnter : c₁.hooks.onEnter = true := by rw [hhooks]
  obtain ⟨c₂, hstop⟩ := Turn.ofEntry hstarted' hg hentered honEnter hloaded
  obtain ⟨used, -, hrest⟩ := runWithin_of_turn hpop
  obtain ⟨more, -, hmore⟩ := runWithin_of_turn hqueued
  refine ⟨1 + more + used, c₂, ?_, ?_, ?_⟩
  · rw [hrest, hmore, ← hid]
    exact runWithin_of_stop hstop 0
  · rw [← hid]
    exact point?_entry hstarted' hg hentered
  · rw [State.tick_enter hstarted' hg hentered, ← hfresh]
    rfl

end Returned

/-- On the way to its end, what stands under the paused frame stays. -/
theorem holds_after {s : State} {top : Activation} {below : List Activation} (h : OnTrace s)
    (hstack : s.stack = top :: below) {k : Nat}
    (hstay : ∀ j, j < k → ¬(s.after j).control.AtEnd top.id) :
    Control.Holds top.id top.unit (below.map Activation.control) (s.after k).control := by
  induction k with
  | zero => exact ⟨[], top.control, Machine.control_stack hstack, rfl, rfl⟩
  | succ k ih =>
      have hheld := ih fun j hj => hstay j (Nat.lt_succ_of_lt hj)
      have hstarted : (s.after k).control.started = true := by
        cases k with
        | zero => exact h.started hstack
        | succ k => exact State.tick_started (s.after k)
      have hcontrol : (s.after (k + 1)).control = (s.after k).control.tick :=
        Machine.control_tick (s.after k)
      rw [hcontrol]
      exact hheld.tick hstarted (hstay k (Nat.lt_succ_self k))

theorem OnTrace.after {s : State} (h : OnTrace s) (k : Nat) : OnTrace (s.after k) := by
  induction k with
  | zero => exact h
  | succ k ih => exact ih.tick

/-- The frame `frame`, in which the program alone is at tick `n`, comes to its end at tick `m`, and
no breakpoint of `s` is passed before. -/
structure ReturnsAt (s : State) (frame : FrameId) (n m : Nat) : Prop where
  le : n ≤ m
  atEnd : (alone s m).control.AtEnd frame
  stay : ∀ k, n ≤ k → k < m → ¬(alone s k).control.AtEnd frame
  unbroken : ∀ k, n ≤ k → k < m → ¬BreaksAt s (alone s k)

theorem breaksAt_congr {s r r' : State} (h : r.control = r'.control) :
    BreaksAt s r ↔ BreaksAt s r' := by
  unfold BreaksAt
  rw [h]

/-- Where the program alone is at tick `n`, a machine gets to the same end. -/
theorem returnsAt_iff {s : State} {frame : FrameId} {n k : Nat}
    (hn : s.control = (alone s n).control) :
    ReturnsAt s frame n (n + k) ↔ (s.after k).control.AtEnd frame ∧
      (∀ j, j < k → ¬(s.after j).control.AtEnd frame) ∧ ∀ j, j < k → ¬BreaksAt s (s.after j) := by
  rw [control_after_eq hn, ← forall_after_iff hn fun h => not_congr (breaksAt_congr h),
    ← forall_after_iff hn (P := fun r => ¬r.control.AtEnd frame) fun h => by rw [h]]
  constructor
  · rintro ⟨-, hend, hstay, hunbroken⟩
    exact ⟨hend, hstay, hunbroken⟩
  · rintro ⟨hend, hstay, hunbroken⟩
    exact ⟨Nat.le_add_right n k, hend, hstay, hunbroken⟩

/-- Where the run of `c` from `s` goes whose running frame stands on `below` and comes to its end at
tick `m`: behind the call, or to the entry of the oldest deferred call, or to the end. -/
structure StepsOut (c : Context) (s : State) (below : List Activation) (m : Nat) : Prop where
  caller : ∀ caller rest i, below = caller :: rest →
    s.program.instruction? caller.unit (caller.pc + 1) = some i →
    StopsAt c s (.boundary caller.id caller.unit (caller.pc + 1)) (m + 1)
  next : below = [] → ∀ unit units, (alone s m).control.queue = unit :: units →
    StopsAt c s (.entry ⟨(alone s m).nextFrame⟩) (m + 2) ∧
      (alone s (m + 3)).control.stack =
        [{ ControlFrame.fresh (alone s m).nextFrame unit with entered := true }]
  finish : below = [] → (alone s m).control.queue = [] →
    ∃ fuel c' s', c.runWithin fuel s = some (c', s', none)

/-- To step out runs to the end of the paused frame, and stops nowhere on the way. -/
theorem walk_out {c : Context} {s : State} {top : Activation}
    (hhooks : c.hooks = Hooks.none.install top.id .pop) {below : List Activation} (h : OnTrace s)
    (hstack : s.stack = top :: below) {m : Nat}
    (hstay : ∀ k, k < m → ¬(s.after k).control.AtEnd top.id)
    (hbreak : ∀ k, k < m → ¬BreaksAt s (s.after k)) :
    ∃ used, ∀ fuel, c.runWithin (fuel + used) s = c.runWithin fuel (s.after m) := by
  refine runWithin_of_turns fun k hk => ?_
  have hheld := holds_after h hstack fun j hj => hstay j (Nat.lt_trans hj hk)
  have hopen : (s.after k).isFinished = false := by
    refine Bool.eq_false_iff.2 fun hover => hheld.stack_ne_nil ?_
    rw [Machine.isFinished_eq] at hover
    simp only [Bool.and_eq_true, List.isEmpty_iff] at hover
    exact hover.1.2
  exact Turn.ofWaiting hhooks (s.after_breakpoints k) hopen (hstay k hk) (hbreak k hk)

/-- The debugger that steps out gets to the end of the paused frame. -/
theorem PausedIn.returned {c : Context} {s : State} {top : Activation} {below : List Activation}
    (h : PausedIn c s top.id) (hpaused : c.stepper.paused = some top.id)
    (hstack : s.stack = top :: below) (htrace : OnTrace s) {k : Nat}
    (hend : (s.after k).control.AtEnd top.id)
    (hstay : ∀ j, j < k → ¬(s.after j).control.AtEnd top.id) :
    Returned (c.resume .out) s (s.after k) top below := by
  obtain ⟨hhooks, hloaded, hlast⟩ := h.commanded hpaused hstack .out
  refine ⟨htrace.after k, s.after_program k, s.after_breakpoints k, hhooks, hloaded, hlast, ?_⟩
  obtain ⟨g, others, hcons, hid, hentered, hnone⟩ := hend
  have hheld := holds_after htrace hstack hstay
  obtain ⟨hothers, hunit⟩ := hheld.of_top (htrace.after k).sound hcons hid
  obtain ⟨f, rest, hfirst, rfl, rfl⟩ := List.map_eq_cons_iff.1 hcons
  exact ⟨f, rest, hfirst, hid, hunit, hentered, hnone, hothers⟩

/-- Whatever led to a pause, to step out of a frame that returns before a breakpoint is passed lands
right behind the call; out of a frame without a caller it lands at the entry of the next frame, and
where there is none, the program ends. -/
theorem resume_out_lands {c : Context} {s : State} {frame : FrameId} (h : Reached c s)
    (hpaused : c.stepper.paused = some frame) :
    ∃ top below, s.stack = top :: below ∧ top.id = frame ∧
      (∃ n, s.control = (alone s n).control) ∧
      ∀ n m, s.control = (alone s n).control → ReturnsAt s frame n m →
        StepsOut (c.resume .out) s below m := by
  have hsteady := h.steady
  have hpause := hsteady.paused frame hpaused
  obtain ⟨top, below, hstack, rfl, -⟩ := hpause.top
  refine ⟨top, below, hstack, rfl, hsteady.onTrace.control_alone, fun n m hn hreturns => ?_⟩
  obtain ⟨k, rfl⟩ : ∃ k, m = n + k := ⟨m - n, by have := hreturns.le; omega⟩
  obtain ⟨hend, hstay, hunbroken⟩ := (returnsAt_iff hn).1 hreturns
  have hafter := control_after_eq hn
  have hreturned := hpause.returned hpaused hstack hsteady.onTrace hend hstay
  obtain ⟨used, hused⟩ := walk_out hreturned.hooks hsteady.onTrace hstack hstay hunbroken
  have hnumber : (s.after k).nextFrame = (alone s (n + k)).nextFrame :=
    congrArg Control.nextFrame (hafter k)
  constructor
  · intro caller rest i hbelow hinstr
    obtain ⟨fuel, c', hrun, hpoint⟩ := hreturned.caller hbelow hinstr
    refine ⟨?_, fuel + used, c', _, (hused fuel).trans hrun, hafter (k + 2)⟩
    exact (congrArg Control.point? (hafter (k + 1))).symm.trans hpoint
  · intro hbelow unit units hqueue
    rw [← hafter] at hqueue
    obtain ⟨call, calls, hdeferred, rfl, -⟩ := List.map_eq_cons_iff.1 hqueue
    obtain ⟨fuel, c', hrun, hpoint, hfresh⟩ := hreturned.nextOutermost hbelow hdeferred
    rw [hnumber] at hrun hpoint hfresh
    refine ⟨⟨?_, fuel + used, c', _, (hused fuel).trans hrun, hafter (k + 3)⟩, ?_⟩
    · exact (congrArg Control.point? (hafter (k + 2))).symm.trans hpoint
    · exact (congrArg Control.stack (hafter (k + 3))).symm.trans hfresh
  · intro hbelow hqueue
    rw [← hafter] at hqueue
    have hdeferred : (s.after k).deferred = [] := List.map_eq_nil_iff.1 hqueue
    obtain ⟨fuel, c', hrun⟩ := hreturned.finish hbelow hdeferred
    exact ⟨fuel + used, c', _, (hused fuel).trans hrun⟩

/-- Without breakpoints none is passed. -/
theorem not_breaksAt {s : State} (h : s.breakpoints = []) (r : State) : ¬BreaksAt s r := by
  rintro ⟨frame, unit, offset, -, hset⟩
  rw [State.hasBreakpoint, h] at hset
  cases hset

/-- What a machine is like whose frame ends `k` ticks later: the breakpoints and the frames, the
units of the calls that are deferred by then, the number that the next frame gets, whether the frame
is at its end, and whether it is not before. -/
private def outward (s : State) (frame : FrameId) (k : Nat) :
    List (UnitId × Nat) × List ControlFrame × List UnitId × Nat × Bool × Bool :=
  (s.breakpoints, s.control.stack, (s.after k).control.queue, (s.after k).nextFrame,
    (s.after k).control.atEnd frame, (List.range k).all fun j => !(s.after j).control.atEnd frame)

private theorem returnsAt_of_outward {s : State} {frame : FrameId} {n k number : Nat}
    {stack : List ControlFrame} {queue : List UnitId} (hn : s.control = (alone s n).control)
    (h : outward s frame k = ([], stack, queue, number, true, true)) :
    s.control.stack = stack ∧ (alone s (n + k)).control.queue = queue ∧
      (alone s (n + k)).nextFrame = number ∧ ReturnsAt s frame n (n + k) := by
  simp only [outward, Prod.mk.injEq] at h
  obtain ⟨hnone, hstack, hqueue, hnumber, hend, hbefore⟩ := h
  have hafter := control_after_eq hn k
  refine ⟨hstack, hafter ▸ hqueue, (congrArg Control.nextFrame hafter).symm.trans hnumber, ?_⟩
  refine (returnsAt_iff hn).2 ⟨Control.atEnd_iff.1 hend, fun j hj hend => ?_, fun j _ => ?_⟩
  · have hnot := List.all_eq_true.1 hbefore j (List.mem_range.2 hj)
    rw [Control.atEnd_iff.2 hend] at hnot
    cases hnot
  · exact not_breaksAt hnone (s.after j)

/-- The pauses at the entry of a module and, behind it, in the function that it calls. -/
private def pauses (program : Program) : Option ((Context × State) × Context × State) :=
  (Context.initial.runWithin 3 (State.initial (fun _ => none) program)).bind fun (c, s, _) =>
    ((c.resume .into).runWithin 4 s).map fun (d, t, _) => ((c, s), d, t)

private theorem reached_pauses {url source : String} {program : Program} {c d : Context}
    {s t : State} (hsource : Program.ofSource url source = .ok program) {frame : FrameId}
    (hpaused : c.stepper.paused = some frame) (h : pauses program = some ((c, s), d, t)) :
    Reached c s ∧ Reached d t := by
  obtain ⟨⟨c', s', stop⟩, hfirst, hrest⟩ := Option.bind_eq_some_iff.1 h
  obtain ⟨⟨d', t', stop'⟩, hsecond, hsame⟩ := Option.map_eq_some_iff.1 hrest
  simp only [Prod.mk.injEq] at hsame
  obtain ⟨⟨rfl, rfl⟩, rfl, rfl⟩ := hsame
  have hreached : Reached c' s' := .run (.start hsource) rfl hfirst
  refine ⟨hreached, .run (hreached.resume .into) ?_ hsecond⟩
  simp only [Context.resume, Stepper.resume, hpaused]

/-- Out of a called function, to step out lands behind the call; out of the module that calls it, at
the entry of the function that is deferred meanwhile. -/
theorem resume_out_lands_behind_call :
    ∃ program c s d t n m,
      Program.ofSource "main.mod"
        "call f\ndefer g\nfunction f\n  print \"hi\"\nend\nfunction g\nend\n" = .ok program ∧
      Reached c s ∧ c.stepper.paused = some ⟨1⟩ ∧ s.control = (alone s n).control ∧
      ReturnsAt s ⟨1⟩ n (n + 10) ∧ StopsAt (c.resume .out) s (.entry ⟨3⟩) (n + 12) ∧
      Reached d t ∧ d.stepper.paused = some ⟨2⟩ ∧ t.control = (alone t m).control ∧
      ReturnsAt t ⟨2⟩ m (m + 4) ∧ StopsAt (d.resume .out) t (.boundary ⟨1⟩ ⟨0⟩ 1) (m + 5) := by
  have hcomputed :
      ((Program.ofSource "main.mod"
          "call f\ndefer g\nfunction f\n  print \"hi\"\nend\nfunction g\nend\n").toOption.bind
        fun program => (pauses program).map fun ((c, s), d, t) =>
          (c.stepper.paused, outward s ⟨1⟩ 10, d.stepper.paused, outward t ⟨2⟩ 4,
            (t.program.instruction? ⟨0⟩ 1).isSome)) =
      some (some ⟨1⟩, ([], [⟨⟨1⟩, ⟨0⟩, 0, true, false, false⟩], [⟨2⟩], 3, true, true), some ⟨2⟩,
        ([], [⟨⟨2⟩, ⟨1⟩, 0, true, false, false⟩, ⟨⟨1⟩, ⟨0⟩, 0, true, true, true⟩], [], 3, true,
          true), true) := by cbv
  obtain ⟨program, hsource, hprogram⟩ := Program.exists_of_ofSource hcomputed
  obtain ⟨⟨⟨c, s⟩, d, t⟩, hpauses, hdata⟩ := Option.map_eq_some_iff.1 hprogram
  simp only [Prod.mk.injEq] at hdata
  obtain ⟨houterPaused, houter, hinnerPaused, hinner, hinstr⟩ := hdata
  obtain ⟨i, hinstr⟩ := Option.isSome_iff_exists.1 hinstr
  obtain ⟨hs, ht⟩ := reached_pauses hsource houterPaused hpauses
  obtain ⟨first, none, hfirst, -, ⟨n, hn⟩, houterOut⟩ := resume_out_lands hs houterPaused
  obtain ⟨second, callers, hsecond, -, ⟨m, hm⟩, hinnerOut⟩ := resume_out_lands ht hinnerPaused
  obtain ⟨hstack, hqueue, hnumber, houterEnd⟩ := returnsAt_of_outward hn houter
  obtain ⟨hcalled, -, -, hinnerEnd⟩ := returnsAt_of_outward hm hinner
  rw [Machine.control_stack hfirst] at hstack
  rw [Machine.control_stack hsecond] at hcalled
  have hnone : none = [] := List.map_eq_nil_iff.1 (List.cons.inj hstack).2
  obtain ⟨caller, rest, hcallers, hcaller, -⟩ := List.map_eq_cons_iff.1 (List.cons.inj hcalled).2
  have hid : caller.id = ⟨1⟩ := congrArg ControlFrame.id hcaller
  have hunit : caller.unit = ⟨0⟩ := congrArg ControlFrame.unit hcaller
  have hpc : caller.pc = 0 := congrArg ControlFrame.pc hcaller
  have hnext := ((houterOut n _ hn houterEnd).next hnone _ _ hqueue).1
  have hbehind := (hinnerOut m _ hm hinnerEnd).caller caller rest i hcallers (by rwa [hunit, hpc])
  rw [hnumber] at hnext
  rw [hid, hunit, hpc] at hbehind
  exact ⟨program, c, s, d, t, n, m, hsource, hs, houterPaused, hn, houterEnd, hnext, ht,
    hinnerPaused, hm, hinnerEnd, hbehind⟩

end ScriptDebugger.Debug
