import Mathlib
import ScriptDebugger.Proofs.Debug.Reached
/-!
# Where commands stop

The trace of a program is the sequence of the entries of frames and the boundaries of instructions
that it passes when it runs alone. To continue, to step over and to step into stop at the first
point of the rest of the trace that the command waits for, and at no other.

The hooks do not change on the way, and every tick passes at most one point, so what one turn does
is decided by the point alone.

## Main results

* `Commanded.turn` — one turn stops just if it passes a point that is waited for.
* `resume_stops_at_first` — a command stops at the first such point of the trace.
-/

namespace ScriptDebugger.Debug

open Machine (State Activation Control ControlFrame Program Point)
open Source (Instruction)

/-! ## What a command waits for -/

/-- The points that a command waits for that was given where `s` was paused in the frame `top`. -/
def Sought (s : State) (top : Activation) (mode : RunMode) : Point → Prop
  | .entry _ => mode = .into
  | .boundary frame unit offset =>
    s.hasBreakpoint unit offset = true ∨
      (mode = .over ∨ mode = .into) ∧ frame = top.id ∧
        ¬(unit = top.unit ∧
          s.program.statementStart unit offset = s.program.statementStart top.unit top.pc)

instance (s : State) (top : Activation) (mode : RunMode) : DecidablePred (Sought s top mode)
  | .entry _ => inferInstanceAs (Decidable (mode = .into))
  | .boundary frame unit offset =>
    inferInstanceAs (Decidable (s.hasBreakpoint unit offset = true ∨
      (mode = .over ∨ mode = .into) ∧ frame = top.id ∧
        ¬(unit = top.unit ∧
          s.program.statementStart unit offset = s.program.statementStart top.unit top.pc)))

/-- The stop at a point. -/
def stopAt (s : State) : Point → Stop
  | .entry frame => ⟨frame, .step⟩
  | .boundary frame unit offset =>
    ⟨frame, if s.hasBreakpoint unit offset then .breakpoint offset else .step⟩

theorem action_install_iff (frame other : FrameId) (a b : HookAction) :
    (Hooks.none.install frame a).action other = some b ↔ other = frame ∧ b = a := by
  by_cases hother : other = frame
  · subst hother
    rw [Hooks.action_install_self]
    constructor
    · intro h
      exact ⟨rfl, (Option.some.inj h).symm⟩
    · rintro ⟨-, rfl⟩
      rfl
  · rw [Hooks.action_install_ne _ _ hother]
    constructor
    · intro h
      cases h
    · rintro ⟨h, -⟩
      exact absurd h hother

/-- The hooks of commands other than to step out. -/
theorem action_hooksFor {mode : RunMode} (hout : mode ≠ .out) (frame other : FrameId)
    (action : HookAction) :
    (Stepper.hooksFor frame mode).action other = some action ↔
      (mode = .over ∨ mode = .into) ∧ other = frame ∧ action = .step := by
  have hinstalled := action_install_iff frame other .step action
  cases mode with
  | out => exact absurd rfl hout
  | run =>
      constructor
      · intro h
        cases h
      · rintro ⟨h | h, -⟩ <;> cases h
  | «over» =>
      refine hinstalled.trans ⟨fun h => ⟨Or.inl rfl, h⟩, fun h => h.2⟩
  | into =>
      refine Iff.trans hinstalled ⟨fun h => ⟨Or.inr rfl, h⟩, fun h => h.2⟩

theorem onEnter_hooksFor {mode : RunMode} (hout : mode ≠ .out) (frame : FrameId) :
    (Stepper.hooksFor frame mode).onEnter = true ↔ mode = .into := by
  cases mode with
  | out => exact absurd rfl hout
  | run => exact ⟨nofun, nofun⟩
  | «over» => exact ⟨nofun, nofun⟩
  | into => exact ⟨fun _ => rfl, fun _ => rfl⟩

/-- A debugger that runs under a command which was given where `s` was paused in `top`. -/
structure Commanded (c : Context) (s : State) (top : Activation) (mode : RunMode) : Prop where
  hooks : c.hooks = Stepper.hooksFor top.id mode
  loaded : c.stepper.loaded = true
  last : c.stepper.lastLocation = (s.program.instruction? top.unit top.pc).map (·.location)

/-- A place is the remembered one just if it is in the statement where the pause began. -/
theorem location_eq_last_iff {p : Program} (hplaced : p.Placed) {unit unit' : UnitId}
    {offset offset' : Nat} {i : Instruction} (hinstr : p.instruction? unit offset = some i) :
    some i.location = (p.instruction? unit' offset').map (·.location) ↔
      unit = unit' ∧ p.statementStart unit offset = p.statementStart unit' offset' := by
  cases hinstr' : p.instruction? unit' offset' with
  | some j =>
      rw [Option.map_some, Option.some.injEq]
      exact hplaced.location_eq_iff hinstr hinstr'
  | none =>
      refine ⟨nofun, ?_⟩
      rintro ⟨rfl, hstart⟩
      obtain ⟨j, hj, -⟩ := hplaced.statementStart_spec hinstr
      have hself : p.statementStart unit offset' = offset' := by
        rw [Program.statementStart, hinstr']
        rfl
      rw [hstart, hself, hinstr'] at hj
      cases hj

/-! ## One turn -/

theorem point?_boundary {r : State} {top : Activation} {below : List Activation} {i : Instruction}
    (hstarted : r.started = true) (hstack : r.stack = top :: below) (hentered : top.entered = true)
    (hinstr : r.program.instruction? top.unit top.pc = some i)
    (hseen : top.boundarySeen = false) :
    r.control.point? = some (.boundary top.id top.unit top.pc) := by
  simp [Control.point?, State.control, Activation.control, hstarted, hstack, hentered, hinstr,
    hseen]

theorem point?_entry {r : State} {top : Activation} {below : List Activation}
    (hstarted : r.started = true) (hstack : r.stack = top :: below)
    (hentered : top.entered = false) : r.control.point? = some (.entry top.id) := by
  simp [Control.point?, State.control, Activation.control, hstarted, hstack, hentered]

namespace Commanded

variable {c : Context} {s r : State} {top : Activation} {mode : RunMode}

/-- A boundary that is passed. -/
theorem boundary (h : Commanded c s top mode) (hout : mode ≠ .out) (hplaced : r.program.Placed)
    (hprogram : r.program = s.program) (hbreakpoints : r.breakpoints = s.breakpoints)
    {first : Activation} {below : List Activation} {i : Instruction}
    (hstack : r.tick.stack = { first with boundarySeen := true } :: below)
    (hinstr : r.program.instruction? first.unit first.pc = some i)
    (hadvance : r.advance c.hooks = (r.tick, r.boundaryEvent c.hooks first)) :
    (∃ c', Sought s top mode (.boundary first.id first.unit first.pc) ∧
        Turn c r c' (some (stopAt s (.boundary first.id first.unit first.pc)))) ∨
      (¬Sought s top mode (.boundary first.id first.unit first.pc) ∧ Turn c r c none) := by
  have hset : r.hasBreakpoint first.unit first.pc = s.hasBreakpoint first.unit first.pc := by
    rw [State.hasBreakpoint, State.hasBreakpoint, hbreakpoints]
  have hhook := action_hooksFor hout top.id first.id .step
  rw [← h.hooks] at hhook
  unfold State.boundaryEvent at hadvance
  rw [hset] at hadvance
  cases harmed : s.hasBreakpoint first.unit first.pc with
  | true =>
      rw [if_pos harmed] at hadvance
      obtain ⟨c', hturn⟩ := Turn.of_breakpoint hadvance
      refine Or.inl ⟨c', Or.inl harmed, ?_⟩
      rwa [stopAt, if_pos harmed]
  | false =>
      have hunarmed : ¬s.hasBreakpoint first.unit first.pc = true := by simp [harmed]
      rw [if_neg hunarmed] at hadvance
      by_cases hhooked : c.hooks.action first.id = some .step
      · rw [if_pos hhooked] at hadvance
        obtain ⟨hmode, hid, -⟩ := hhook.1 hhooked
        have hinstr' : r.tick.program.instruction? first.unit first.pc = some i := by
          rw [State.tick_program]
          exact hinstr
        have hlocation : locationOf r.tick first.id = some i.location :=
          (locationOf_of_instruction hstack hinstr' :)
        have hsame : locationOf r.tick first.id = c.stepper.lastLocation ↔
            first.unit = top.unit ∧
              s.program.statementStart first.unit first.pc =
                s.program.statementStart top.unit top.pc := by
          rw [hlocation, h.last, ← hprogram]
          exact location_eq_last_iff hplaced hinstr
        by_cases hstay : locationOf r.tick first.id = c.stepper.lastLocation
        · refine Or.inr ⟨?_, .of_stay hadvance hstay⟩
          rintro (hnot | ⟨-, -, hleft⟩)
          · exact hunarmed hnot
          · exact hleft (hsame.1 hstay)
        · obtain ⟨c', hturn⟩ := Turn.of_step hadvance hhooked hstay
          refine Or.inl ⟨c', Or.inr ⟨hmode, hid, fun hstill => hstay (hsame.2 hstill)⟩, ?_⟩
          rwa [stopAt, if_neg hunarmed]
      · rw [if_neg hhooked] at hadvance
        refine Or.inr ⟨?_, .silent hadvance⟩
        rintro (hnot | ⟨hmode, hid, -⟩)
        · exact hunarmed hnot
        · exact hhooked (hhook.2 ⟨hmode, hid, rfl⟩)

/-- The entry of a frame that is passed. -/
theorem entry (h : Commanded c s top mode) (hout : mode ≠ .out) {frame : FrameId}
    (hadvance : r.advance c.hooks =
      (r.tick, if c.hooks.onEnter then some (.enterFrame frame) else none)) :
    (∃ c', Sought s top mode (.entry frame) ∧ Turn c r c' (some (stopAt s (.entry frame)))) ∨
      (¬Sought s top mode (.entry frame) ∧ Turn c r c none) := by
  have hmode := onEnter_hooksFor hout top.id
  rw [← h.hooks] at hmode
  by_cases honEnter : c.hooks.onEnter = true
  · rw [if_pos honEnter] at hadvance
    obtain ⟨c', hturn⟩ := Turn.of_enter hadvance honEnter h.loaded
    exact Or.inl ⟨c', hmode.1 honEnter, hturn⟩
  · rw [if_neg honEnter] at hadvance
    exact Or.inr ⟨fun hinto => honEnter (hmode.2 hinto), .silent hadvance⟩

/-- One turn stops just if it passes a point that is waited for. -/
theorem turn (h : Commanded c s top mode) (hout : mode ≠ .out) (hplaced : r.program.Placed)
    (hprogram : r.program = s.program) (hbreakpoints : r.breakpoints = s.breakpoints)
    (hopen : r.isFinished = false) :
    (∃ p c', r.control.point? = some p ∧ Sought s top mode p ∧
        Turn c r c' (some (stopAt s p))) ∨
      ((∀ p, r.control.point? = some p → ¬Sought s top mode p) ∧ Turn c r c none) := by
  rcases hadvance : r.advance c.hooks with ⟨t, event⟩
  have hstep := State.step_of_advance hadvance
  have hpop : ∀ frame, event ≠ some (.pop frame) := by
    rintro frame rfl
    obtain ⟨first, -, -, -, -, -, hhook, -⟩ := hstep.pop_inv
    rw [h.hooks] at hhook
    obtain ⟨-, -, hstepping⟩ := (action_hooksFor hout top.id first.id .pop).1 hhook
    cases hstepping
  obtain rfl := hstep.eq_tick hpop
  have hsilent : r.control.point? = none → event = none →
      (∀ p, r.control.point? = some p → ¬Sought s top mode p) ∧ Turn c r c none := by
    intro hnone hevent
    rw [hevent] at hadvance
    refine ⟨fun p hp => ?_, .silent hadvance⟩
    cases hnone.symm.trans hp
  generalize hnext : r.tick = next at hstep
  cases hstep with
  | start hstarted =>
      exact Or.inr (hsilent (by simp [Control.point?, State.control, hstarted]) rfl)
  | finish hstarted hstack hdeferred =>
      simp [State.isFinished, hstarted, hstack, hdeferred] at hopen
  | unqueue hstarted hstack hdeferred =>
      exact Or.inr (hsilent (by simp [Control.point?, State.control, hstack]) rfl)
  | report => exact absurd rfl (hpop _)
  | leave hstarted hstack hentered hend =>
      refine Or.inr (hsilent ?_ rfl)
      simp [Control.point?, State.control, Activation.control, hstack, hentered, hend]
  | execute hstarted hstack hentered hinstr hseen =>
      refine Or.inr (hsilent ?_ rfl)
      simp [Control.point?, State.control, Activation.control, hstack, hentered, hseen]
  | enter hstarted hstack hentered =>
      have hpoint := point?_entry hstarted hstack hentered
      rcases h.entry hout hadvance with ⟨c', hsought, hturn⟩ | ⟨hnot, hturn⟩
      · exact Or.inl ⟨_, c', hpoint, hsought, hturn⟩
      · refine Or.inr ⟨fun p hp => ?_, hturn⟩
        obtain rfl := Option.some.inj (hpoint.symm.trans hp)
        exact hnot
  | consider hstarted hstack hentered hinstr hseen =>
      have hpoint := point?_boundary hstarted hstack hentered hinstr hseen
      have hseenStack := congrArg State.stack hnext
      rcases h.boundary hout hplaced hprogram hbreakpoints hseenStack hinstr hadvance with
        ⟨c', hsought, hturn⟩ | ⟨hnot, hturn⟩
      · exact Or.inl ⟨_, c', hpoint, hsought, hturn⟩
      · refine Or.inr ⟨fun p hp => ?_, hturn⟩
        obtain rfl := Option.some.inj (hpoint.symm.trans hp)
        exact hnot

end Commanded

/-! ## The run of a command -/

/-- A tick that passes a point that is waited for. -/
def SoughtAt (s : State) (top : Activation) (mode : RunMode) (r : State) : Prop :=
  ∃ p, r.control.point? = some p ∧ Sought s top mode p

instance (s : State) (top : Activation) (mode : RunMode) : DecidablePred (SoughtAt s top mode) :=
  fun r =>
    match hpoint : r.control.point? with
    | none => isFalse fun ⟨_, hp, _⟩ => nomatch hpoint.symm.trans hp
    | some p =>
      if h : Sought s top mode p then isTrue ⟨p, hpoint, h⟩
      else isFalse fun ⟨_, hp, hsought⟩ => h (Option.some.inj (hpoint.symm.trans hp) ▸ hsought)

namespace Commanded

variable {c : Context} {s : State} {top : Activation} {mode : RunMode}

theorem turn_after (h : Commanded c s top mode) (hout : mode ≠ .out) (hplaced : s.program.Placed)
    {k : Nat} (hopen : (s.after k).isFinished = false) :
    (∃ p c', (s.after k).control.point? = some p ∧ Sought s top mode p ∧
        Turn c (s.after k) c' (some (stopAt s p))) ∨
      (¬SoughtAt s top mode (s.after k) ∧ Turn c (s.after k) c none) := by
  have hprogram := s.after_program k
  have hturn := h.turn hout (by rwa [hprogram]) hprogram (s.after_breakpoints k) hopen
  exact hturn.imp_right fun ⟨hnot, hquiet⟩ => ⟨fun ⟨p, hp, hsought⟩ => hnot p hp hsought, hquiet⟩

/-- Where nothing is waited for, a run goes on. -/
theorem walk (h : Commanded c s top mode) (hout : mode ≠ .out) (hplaced : s.program.Placed)
    {m : Nat} (hopen : ∀ k, k < m → (s.after k).isFinished = false)
    (hnot : ∀ k, k < m → ¬SoughtAt s top mode (s.after k)) :
    ∃ used, ∀ fuel, c.runWithin (fuel + used) s = c.runWithin fuel (s.after m) := by
  refine runWithin_of_turns fun k hk => ?_
  rcases h.turn_after hout hplaced (hopen k hk) with ⟨p, -, hp, hsought, -⟩ | ⟨-, hturn⟩
  · exact absurd ⟨p, hp, hsought⟩ (hnot k hk)
  · exact hturn

/-- What a run comes to, from any tick on. -/
theorem run_cases (h : Commanded c s top mode) (hout : mode ≠ .out) (hplaced : s.program.Placed)
    {fuel k : Nat} {c' : Context} {t : State} {stop : Option Stop}
    (hrun : c.runWithin fuel (s.after k) = some (c', t, stop)) :
    (stop = none ∧ (∃ j, (s.after j).isFinished = true) ∧
        ∀ j, k ≤ j → ¬SoughtAt s top mode (s.after j)) ∨
      ∃ m p, k ≤ m ∧ (s.after m).control.point? = some p ∧ Sought s top mode p ∧
        (∀ j, k ≤ j → j < m → ¬SoughtAt s top mode (s.after j)) ∧ stop = some (stopAt s p) ∧
        t = s.after (m + 1) := by
  induction fuel using Nat.strongRecOn generalizing k with
  | ind fuel ih =>
    cases hopen : (s.after k).isFinished with
    | true =>
        have hend := runWithin_finished c hopen fuel
        rw [runWithin_mono hrun (Nat.le_succ fuel)] at hend
        obtain ⟨-, -, rfl⟩ : c' = c ∧ t = s.after k ∧ stop = none := by simpa using hend
        refine Or.inl ⟨rfl, ⟨k, hopen⟩, ?_⟩
        rintro j hj ⟨p, hp, -⟩
        rw [State.after_of_finished hopen hj, Machine.point?_finished hopen] at hp
        cases hp
    | false =>
        rcases h.turn_after hout hplaced hopen with ⟨p, next, hp, hsought, hturn⟩ | ⟨hnot, hturn⟩
        · obtain ⟨-, rfl, rfl⟩ : c' = next ∧ t = (s.after k).tick ∧ stop = some (stopAt s p) := by
            simpa using hturn.eq_of_stop hrun
          exact Or.inr ⟨k, p, Nat.le_refl k, hp, hsought, fun j hj hlt => by omega, rfl, rfl⟩
        · obtain ⟨rest, hlt, hrest⟩ := hturn.rest hrun
          have hcases := ih rest hlt (k := k + 1) hrest
          have hfrom : ∀ j, k ≤ j → (k + 1 ≤ j → ¬SoughtAt s top mode (s.after j)) →
              ¬SoughtAt s top mode (s.after j) := by
            intro j hj hlater
            rcases Nat.eq_or_lt_of_le hj with rfl | hlt
            · exact hnot
            · exact hlater hlt
          rcases hcases with ⟨hstop, hend, hnever⟩ | ⟨m, p, hm, hp, hsought, hbefore, hstop, ht⟩
          · exact Or.inl ⟨hstop, hend, fun j hj => hfrom j hj (hnever j)⟩
          · refine Or.inr ⟨m, p, by omega, hp, hsought, fun j hj hlt => ?_, hstop, ht⟩
            exact hfrom j hj fun hlater => hbefore j hlater hlt

/-- A run stops at the first point that is waited for. -/
theorem run_stop (h : Commanded c s top mode) (hout : mode ≠ .out) (hplaced : s.program.Placed)
    {m : Nat} {p : Point} (hp : (s.after m).control.point? = some p) (hsought : Sought s top mode p)
    (hfirst : ∀ k, k < m → ¬SoughtAt s top mode (s.after k)) :
    ∃ fuel c', c.runWithin fuel s = some (c', s.after (m + 1), some (stopAt s p)) := by
  have hopen : ∀ k, k ≤ m → (s.after k).isFinished = false := by
    intro k hk
    refine Bool.eq_false_iff.2 fun hover => ?_
    rw [State.after_of_finished hover hk, Machine.point?_finished hover] at hp
    cases hp
  obtain ⟨used, hused⟩ := h.walk hout hplaced (fun k hk => hopen k (Nat.le_of_lt hk)) hfirst
  rcases h.turn_after hout hplaced (hopen m (Nat.le_refl m)) with ⟨q, c', hq, -, hturn⟩ | ⟨hnot, -⟩
  · obtain rfl : p = q := Option.some.inj (hp.symm.trans hq)
    refine ⟨1 + used, c', ?_⟩
    rw [hused]
    exact runWithin_of_stop hturn 0
  · exact absurd ⟨p, hp, hsought⟩ hnot

/-- A run ends where the program ends and nothing is waited for. -/
theorem run_finish (h : Commanded c s top mode) (hout : mode ≠ .out) (hplaced : s.program.Placed)
    {m : Nat} (hend : (s.after m).isFinished = true)
    (hnever : ∀ k, ¬SoughtAt s top mode (s.after k)) :
    ∃ fuel t, c.runWithin fuel s = some (c, t, none) := by
  induction m with
  | zero => exact ⟨1, s, runWithin_finished c hend 0⟩
  | succ m ih =>
      by_cases hopen : ∀ k, k < m + 1 → (s.after k).isFinished = false
      · obtain ⟨used, hused⟩ := h.walk hout hplaced hopen fun k _ => hnever k
        refine ⟨1 + used, s.after (m + 1), ?_⟩
        rw [hused]
        exact runWithin_finished c hend 0
      · have hearlier : (s.after m).isFinished = true := by
          refine Classical.byContradiction fun hnot => hopen fun k hk => ?_
          refine Bool.eq_false_iff.2 fun hover => hnot ?_
          rw [State.after_of_finished hover (Nat.le_of_lt_succ hk)]
          exact hover
        exact ih hearlier

end Commanded

/-! ## The trace -/

/-- What is said of ticks from a machine on is said of ticks of the program alone. -/
theorem control_after_eq {s : State} {n : Nat} (h : s.control = (alone s n).control) (k : Nat) :
    (s.after k).control = (alone s (n + k)).control := by
  have hadd : alone s (n + k) = (alone s n).after k := State.after_add _ n k
  rw [hadd, Machine.control_after, h, Machine.control_after]

theorem forall_after_iff {s : State} {n k : Nat} (h : s.control = (alone s n).control)
    {P : State → Prop} (hcongr : ∀ {r r' : State}, r.control = r'.control → (P r ↔ P r')) :
    (∀ j, n ≤ j → j < n + k → P (alone s j)) ↔ ∀ j, j < k → P (s.after j) := by
  constructor
  · intro hall j hj
    exact (hcongr (control_after_eq h j)).2
      (hall (n + j) (Nat.le_add_right n j) (Nat.add_lt_add_left hj n))
  · intro hall j hle hlt
    obtain ⟨i, rfl⟩ : ∃ i, j = n + i := ⟨j - n, by omega⟩
    exact (hcongr (control_after_eq h i)).1 (hall i (by omega))

theorem soughtAt_congr {s r r' : State} {top : Activation} {mode : RunMode}
    (h : r.control = r'.control) : SoughtAt s top mode r ↔ SoughtAt s top mode r' := by
  unfold SoughtAt
  rw [h]

theorem not_soughtAt_congr {s r r' : State} {top : Activation} {mode : RunMode}
    (h : r.control = r'.control) : ¬SoughtAt s top mode r ↔ ¬SoughtAt s top mode r' :=
  not_congr (soughtAt_congr h)

/-- The run of `c` from `s` stops at the point that the program alone passes at tick `k`, right
behind it. -/
def StopsAt (c : Context) (s : State) (p : Point) (k : Nat) : Prop :=
  (alone s k).control.point? = some p ∧
    ∃ fuel c' s', c.runWithin fuel s = some (c', s', some (stopAt s p)) ∧
      s'.control = (alone s (k + 1)).control

/-- The run of `c` from `s`, which the program alone gets to in `n` ticks, stops at the first point
of the rest of the trace that is waited for, and at no other; it ends without a stop just if the
trace ends without such a point. -/
structure StopsAtFirst (c : Context) (s : State) (top : Activation) (mode : RunMode) (n : Nat) :
    Prop where
  stop : ∀ m p, n ≤ m → (alone s m).control.point? = some p → Sought s top mode p →
    (∀ k, n ≤ k → k < m → ¬SoughtAt s top mode (alone s k)) → StopsAt c s p m
  only : ∀ fuel c' s' reason, c.runWithin fuel s = some (c', s', some reason) →
    ∃ m p, n ≤ m ∧ (alone s m).control.point? = some p ∧ Sought s top mode p ∧
      (∀ k, n ≤ k → k < m → ¬SoughtAt s top mode (alone s k)) ∧ reason = stopAt s p ∧
      s'.control = (alone s (m + 1)).control
  finish : (∃ fuel c' s', c.runWithin fuel s = some (c', s', none)) ↔
    (∃ m, (alone s m).isFinished = true) ∧ ∀ m, n ≤ m → ¬SoughtAt s top mode (alone s m)

theorem Commanded.stopsAtFirst {c : Context} {s : State} {top : Activation} {mode : RunMode}
    {n : Nat} (h : Commanded c s top mode) (hout : mode ≠ .out) (hplaced : s.program.Placed)
    (hcontrol : s.control = (alone s n).control) : StopsAtFirst c s top mode n where
  stop m p hm hp hwaited hfirst := by
    obtain ⟨k, rfl⟩ : ∃ k, m = n + k := ⟨m - n, by omega⟩
    have hpoint : (s.after k).control.point? = some p := by
      rw [control_after_eq hcontrol]
      exact hp
    have hnot := (forall_after_iff hcontrol not_soughtAt_congr).1 hfirst
    obtain ⟨fuel, c', hrun⟩ := h.run_stop hout hplaced hpoint hwaited hnot
    exact ⟨hp, fuel, c', _, hrun, control_after_eq hcontrol (k + 1)⟩
  only fuel c' s' reason hrun := by
    rcases h.run_cases hout hplaced (k := 0) hrun with
      ⟨hnone, -⟩ | ⟨m, p, -, hp, hwaited, hfirst, hreason, rfl⟩
    · cases hnone
    · rw [control_after_eq hcontrol] at hp
      refine ⟨n + m, p, Nat.le_add_right n m, hp, hwaited, ?_, Option.some.inj hreason,
        control_after_eq hcontrol (m + 1)⟩
      exact (forall_after_iff hcontrol not_soughtAt_congr).2 fun j hj => hfirst j (Nat.zero_le j) hj
  finish := by
    have hafter := control_after_eq hcontrol
    have hsought : ∀ k, SoughtAt s top mode (s.after k) ↔ SoughtAt s top mode (alone s (n + k)) :=
      fun k => soughtAt_congr (hafter k)
    constructor
    · rintro ⟨fuel, c', s', hrun⟩
      rcases h.run_cases hout hplaced (k := 0) hrun with
        ⟨-, ⟨j, hend⟩, hnever⟩ | ⟨m, p, -, -, -, -, hreason, -⟩
      · refine ⟨⟨n + j, ?_⟩, fun m hm hbefore => ?_⟩
        · rw [Machine.isFinished_eq, ← hafter, ← Machine.isFinished_eq]
          exact hend
        · obtain ⟨k, rfl⟩ : ∃ k, m = n + k := ⟨m - n, by omega⟩
          exact hnever k (Nat.zero_le k) ((hsought k).2 hbefore)
      · cases hreason
    · rintro ⟨⟨m, hend⟩, hnever⟩
      have hlater : (s.after m).isFinished = true := by
        rw [Machine.isFinished_eq, hafter, ← Machine.isFinished_eq, alone,
          State.after_of_finished hend (Nat.le_add_left m n)]
        exact hend
      obtain ⟨fuel, t, hrun⟩ := h.run_finish hout hplaced hlater fun k hbefore =>
        hnever (n + k) (Nat.le_add_right n k) ((hsought k).1 hbefore)
      exact ⟨fuel, c, t, hrun⟩

/-- A command that is given in a pause. -/
theorem PausedIn.commanded {c : Context} {s : State} {top : Activation} {below : List Activation}
    (h : PausedIn c s top.id) (hpaused : c.stepper.paused = some top.id)
    (hstack : s.stack = top :: below) (mode : RunMode) : Commanded (c.resume mode) s top mode := by
  obtain ⟨-, hloaded, first, rest, hfirst, -, -, hlast, -⟩ := h
  obtain ⟨rfl, -⟩ := List.cons.inj (hstack.symm.trans hfirst)
  have hstepper : (c.resume mode).stepper =
      { c.stepper with hooks := Stepper.hooksFor top.id mode, paused := none } := by
    simp only [Context.resume, Stepper.resume, hpaused]
  refine ⟨?_, ?_, ?_⟩
  · rw [Context.hooks, hstepper]
  · rw [hstepper]
    exact hloaded
  · rw [hstepper]
    exact hlast

/-- Whatever led to a pause, the machine is where the program alone gets as well, and not between
the instructions of an assignment; to continue, to step over and to step into stop at the first
point of the rest of the trace that they wait for. -/
theorem resume_stops_at_first {c : Context} {s : State} {frame : FrameId} (h : Reached c s)
    (hpaused : c.stepper.paused = some frame) :
    ∃ top below, s.stack = top :: below ∧ top.id = frame ∧
      (∀ i, s.program.instruction? top.unit top.pc = some i → i.op.isStore = false) ∧
      (∃ n, s.control = (alone s n).control) ∧
      ∀ n mode, s.control = (alone s n).control → mode ≠ .out →
        StopsAtFirst (c.resume mode) s top mode n := by
  have hsteady := h.steady
  have hpause := hsteady.paused frame hpaused
  obtain ⟨top, below, hstack, rfl, -, -, hstore⟩ := hpause.top
  refine ⟨top, below, hstack, rfl, hstore, hsteady.onTrace.control_alone, fun n mode hn hout => ?_⟩
  exact (hpause.commanded hpaused hstack mode).stopsAtFirst hout hsteady.onTrace.placed hn

/-- A command from the entry of a module: the pause, and whether a point is the first one that is
waited for. -/
private def firstSought (program : Program) (mode : RunMode) (m : Nat) (p : Point) :
    Option (Option FrameId × Option Point × Bool × Bool) :=
  (Context.initial.runWithin 3 (State.initial (fun _ => none) program)).bind fun (c, s, _) =>
    s.stack.head?.map fun (top : Activation) =>
      (c.stepper.paused, (s.after m).control.point?, decide (Sought s top mode p),
        decide (∀ k, k < m → ¬SoughtAt s top mode (s.after k)))

/-- Stepped over from the entry of a module, an assignment is passed as a whole. -/
theorem resume_stops_at_first_behind_assignment :
    ∃ program c s stop n,
      Program.ofSource "main.mod" "let a = \"x\"\nprint a\n" = .ok program ∧
      Context.initial.runWithin 3 (State.initial (fun _ => none) program) = some (c, s, stop) ∧
      Reached c s ∧ c.stepper.paused = some ⟨1⟩ ∧ s.control = (alone s n).control ∧
      StopsAt (c.resume .over) s (.boundary ⟨1⟩ ⟨0⟩ 2) (n + 4) := by
  have hcomputed :
      ((Program.ofSource "main.mod" "let a = \"x\"\nprint a\n").toOption.bind fun program =>
        firstSought program .over 4 (.boundary ⟨1⟩ ⟨0⟩ 2)) =
      some (some ⟨1⟩, some (.boundary ⟨1⟩ ⟨0⟩ 2), true, true) := by cbv
  obtain ⟨program, hsource, hprogram⟩ := Program.exists_of_ofSource hcomputed
  obtain ⟨⟨c, s, stop⟩, hrun, hpause⟩ := Option.bind_eq_some_iff.1 hprogram
  obtain ⟨top, hhead, hdata⟩ := Option.map_eq_some_iff.1 hpause
  simp only [Prod.mk.injEq, decide_eq_true_eq] at hdata
  obtain ⟨hpaused, hpoint, hsought, hfirst⟩ := hdata
  have hreached : Reached c s := .run (.start hsource) rfl hrun
  obtain ⟨first, below, hstack, -, -, ⟨n, hn⟩, hstops⟩ := resume_stops_at_first hreached hpaused
  obtain rfl : first = top := by
    rw [hstack] at hhead
    exact Option.some.inj hhead
  have hafter := control_after_eq hn
  rw [hafter] at hpoint
  refine ⟨program, c, s, stop, n, hsource, hrun, hreached, hpaused, hn, ?_⟩
  exact (hstops n .over hn (by decide)).stop (n + 4) _ (Nat.le_add_right n 4) hpoint hsought
    ((forall_after_iff hn not_soughtAt_congr).2 hfirst)

end ScriptDebugger.Debug
