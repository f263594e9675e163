import ScriptDebugger.Proofs.Machine.SmallStep
/-!
# The flow of control

No instruction branches on a value, so where a program goes depends on its code alone. `Control` is
what remains of a machine without its data, its output and its breakpoints: the program, the
frames with their places and flags, the units of the deferred calls. It runs by itself.

The run of a control state is the trace of the program: the sequence of the points — entries of
frames, boundaries of instructions — that the machine passes, under whatever hooks and whatever the
debugger assigns to variables meanwhile.

## Main results

* `Control.step_tick` — the cases of a tick of control.
* `control_tick` — a tick of the machine is a tick of its control.
* `State.Step.control_eq` — so is a small step under hooks, up to the report of a frame's end.
-/

namespace ScriptDebugger.Machine

open Source (Instruction Op Operand)

/-! ## Control states -/

/-- A frame without its data. -/
structure ControlFrame where
  /-- The frame's number. -/
  id : FrameId
  /-- The unit that runs. -/
  unit : UnitId
  /-- The offset of the next instruction. -/
  pc : Nat
  /-- Whether the entry of the frame is over. -/
  entered : Bool
  /-- Whether the boundary before the next instruction was considered. -/
  boundarySeen : Bool
  /-- Whether a call is under way. -/
  awaitingReturn : Bool
  deriving DecidableEq, Repr

/-- A machine without its data. -/
structure Control where
  /-- The program. -/
  program : Program
  /-- The frames, the running one first. -/
  stack : List ControlFrame
  /-- The units of the deferred calls, the oldest first. -/
  queue : List UnitId
  /-- The number that the next frame gets. -/
  nextFrame : Nat
  /-- Whether the program was started. -/
  started : Bool

/-- The control of a frame. -/
def Activation.control (a : Activation) : ControlFrame :=
  ⟨a.id, a.unit, a.pc, a.entered, a.boundarySeen, a.awaitingReturn⟩

/-- The control of a machine. -/
def State.control (s : State) : Control :=
  ⟨s.program, s.stack.map Activation.control, s.deferred.map DeferredCall.unit, s.nextFrame,
    s.started⟩

/-- The control of a machine that has not started its program. -/
def Control.initial (program : Program) : Control := ⟨program, [], [], 1, false⟩

/-- A place that a run passes, where a debugger may stop it. -/
inductive Point
  /-- The entry of a frame. -/
  | entry (frame : FrameId)
  /-- The boundary before an instruction of a frame. -/
  | boundary (frame : FrameId) (unit : UnitId) (offset : Nat)
  deriving DecidableEq, Repr

namespace ControlFrame

/-- Moves to the next instruction. -/
def next (f : ControlFrame) : ControlFrame := { f with pc := f.pc + 1, boundarySeen := false }

/-- A new frame. -/
def fresh (number : Nat) (unit : UnitId) : ControlFrame :=
  ⟨⟨number⟩, unit, 0, false, false, false⟩

end ControlFrame

namespace Control

/-- Starts a frame for a unit; a number without a unit changes nothing. -/
def push (c : Control) (unit : UnitId) : Control :=
  if (c.program.unit? unit).isSome then
    { c with nextFrame := c.nextFrame + 1, stack := .fresh c.nextFrame unit :: c.stack }
  else c

/-- The frame that a call returns to goes on behind the call. -/
def resumeCaller : List ControlFrame → List ControlFrame
  | [] => []
  | caller :: rest =>
    if caller.awaitingReturn then { caller.next with awaitingReturn := false } :: rest
    else caller :: rest

/-- Takes the running frame off the stack. -/
def pop (c : Control) : Control := { c with stack := resumeCaller c.stack.tail }

/-- Carries out an operation of the running frame. -/
def perform (c : Control) (top : ControlFrame) (below : List ControlFrame) : Op → Control
  | .load _ | .store _ _ | .print _ => { c with stack := top.next :: below }
  | .call name _ =>
    match c.program.lookupFunction top.unit name with
    | some callee => push { c with stack := { top with awaitingReturn := true } :: below } callee
    | none => { c with stack := top.next :: below }
  | .defer name _ =>
    match c.program.lookupFunction top.unit name with
    | some callee => { c with queue := c.queue ++ [callee], stack := top.next :: below }
    | none => { c with stack := top.next :: below }
  | .ret =>
    { c with
      stack := { top with pc := c.program.codeLength top.unit, boundarySeen := false } :: below }

/-- One tick. -/
def tick (c : Control) : Control :=
  if !c.started then push { c with started := true } ⟨0⟩
  else
    match c.stack with
    | [] =>
      match c.queue with
      | [] => c
      | unit :: rest => push { c with queue := rest } unit
    | top :: below =>
      if !top.entered then { c with stack := { top with entered := true } :: below }
      else
        match c.program.instruction? top.unit top.pc with
        | none => c.pop
        | some i =>
          if !top.boundarySeen then { c with stack := { top with boundarySeen := true } :: below }
          else c.perform top below i.op

/-- The control state after some ticks. -/
def after (c : Control) : Nat → Control
  | 0 => c
  | n + 1 => (c.after n).tick

/-- The point that the next tick passes. -/
def point? (c : Control) : Option Point :=
  if !c.started then none
  else
    match c.stack with
    | [] => none
    | top :: _ =>
      if !top.entered then some (.entry top.id)
      else if (c.program.instruction? top.unit top.pc).isSome && !top.boundarySeen then
        some (.boundary top.id top.unit top.pc)
      else none

/-! ## What a tick does -/

theorem tick_start {c : Control} (h : c.started = false) :
    c.tick = push { c with started := true } ⟨0⟩ := by
  simp [tick, h]

theorem tick_finish {c : Control} (hstarted : c.started = true) (hstack : c.stack = [])
    (hqueue : c.queue = []) : c.tick = c := by
  simp [tick, hstarted, hstack, hqueue]

theorem tick_unqueue {c : Control} {unit : UnitId} {rest : List UnitId}
    (hstarted : c.started = true) (hstack : c.stack = []) (hqueue : c.queue = unit :: rest) :
    c.tick = push { c with queue := rest } unit := by
  simp [tick, hstarted, hstack, hqueue]

section

variable {c : Control} {top : ControlFrame} {below : List ControlFrame}

theorem tick_enter (hstarted : c.started = true) (hstack : c.stack = top :: below)
    (hentered : top.entered = false) :
    c.tick = { c with stack := { top with entered := true } :: below } := by
  simp [tick, hstarted, hstack, hentered]

theorem tick_leave (hstarted : c.started = true) (hstack : c.stack = top :: below)
    (hentered : top.entered = true) (hend : c.program.instruction? top.unit top.pc = none) :
    c.tick = c.pop := by
  simp [tick, hstarted, hstack, hentered, hend]

theorem tick_consider {i : Instruction} (hstarted : c.started = true)
    (hstack : c.stack = top :: below) (hentered : top.entered = true)
    (hinstr : c.program.instruction? top.unit top.pc = some i)
    (hseen : top.boundarySeen = false) :
    c.tick = { c with stack := { top with boundarySeen := true } :: below } := by
  simp [tick, hstarted, hstack, hentered, hinstr, hseen]

theorem tick_execute {i : Instruction} (hstarted : c.started = true)
    (hstack : c.stack = top :: below) (hentered : top.entered = true)
    (hinstr : c.program.instruction? top.unit top.pc = some i)
    (hseen : top.boundarySeen = true) : c.tick = c.perform top below i.op := by
  simp [tick, hstarted, hstack, hentered, hinstr, hseen]

end

/-! ## The cases of a tick -/

/-- One tick of control, with a rule for each thing that can happen. An instruction other than a
return or the call of a known function passes; it may defer calls. -/
inductive Step (c : Control) : Control → Prop
  /-- The program starts. -/
  | start (hstarted : c.started = false) : Step c (push { c with started := true } ⟨0⟩)
  /-- Nothing is left to run. -/
  | finish (hstarted : c.started = true) (hstack : c.stack = []) (hqueue : c.queue = []) : Step c c
  /-- The oldest deferred call starts. -/
  | unqueue {unit : UnitId} {rest : List UnitId} (hstarted : c.started = true)
      (hstack : c.stack = []) (hqueue : c.queue = unit :: rest) :
      Step c (push { c with queue := rest } unit)
  /-- The entry of a frame is passed. -/
  | enter {top : ControlFrame} {below : List ControlFrame} (hstarted : c.started = true)
      (hstack : c.stack = top :: below) (hentered : top.entered = false) :
      Step c { c with stack := { top with entered := true } :: below }
  /-- A frame leaves the stack. -/
  | leave {top : ControlFrame} {below : List ControlFrame} (hstarted : c.started = true)
      (hstack : c.stack = top :: below) (hentered : top.entered = true)
      (hend : c.program.instruction? top.unit top.pc = none) : Step c c.pop
  /-- The boundary before an instruction is considered. -/
  | consider {top : ControlFrame} {below : List ControlFrame} {i : Instruction}
      (hstarted : c.started = true) (hstack : c.stack = top :: below)
      (hentered : top.entered = true)
      (hinstr : c.program.instruction? top.unit top.pc = some i)
      (hseen : top.boundarySeen = false) :
      Step c { c with stack := { top with boundarySeen := true } :: below }
  /-- A function is called. -/
  | call {top : ControlFrame} {below : List ControlFrame} {i : Instruction} {name : String}
      {args : List Operand} {callee : UnitId} (hstarted : c.started = true)
      (hstack : c.stack = top :: below) (hentered : top.entered = true)
      (hinstr : c.program.instruction? top.unit top.pc = some i)
      (hseen : top.boundarySeen = true) (hop : i.op = .call name args)
      (hcallee : c.program.lookupFunction top.unit name = some callee) :
      Step c (push { c with stack := { top with awaitingReturn := true } :: below } callee)
  /-- A function returns. -/
  | ret {top : ControlFrame} {below : List ControlFrame} {i : Instruction}
      (hstarted : c.started = true) (hstack : c.stack = top :: below)
      (hentered : top.entered = true)
      (hinstr : c.program.instruction? top.unit top.pc = some i)
      (hseen : top.boundarySeen = true) (hop : i.op = .ret) :
      Step c
        { c with
          stack :=
            { top with pc := c.program.codeLength top.unit, boundarySeen := false } :: below }
  /-- Another instruction is executed. -/
  | pass {top : ControlFrame} {below : List ControlFrame} {i : Instruction} (units : List UnitId)
      (hstarted : c.started = true) (hstack : c.stack = top :: below)
      (hentered : top.entered = true)
      (hinstr : c.program.instruction? top.unit top.pc = some i)
      (hseen : top.boundarySeen = true) (hret : i.op ≠ .ret)
      (hcall : ∀ name args, i.op = .call name args →
        c.program.lookupFunction top.unit name = none)
      (hunits : ∀ unit ∈ units, ∃ name, c.program.lookupFunction top.unit name = some unit) :
      Step c { c with queue := c.queue ++ units, stack := top.next :: below }

/-- An executed instruction follows a rule. -/
theorem step_perform {c : Control} {top : ControlFrame} {below : List ControlFrame}
    {i : Instruction} (hstarted : c.started = true) (hstack : c.stack = top :: below)
    (hentered : top.entered = true) (hinstr : c.program.instruction? top.unit top.pc = some i)
    (hseen : top.boundarySeen = true) : Step c (c.perform top below i.op) := by
  have plain : i.op ≠ .ret →
      (∀ name args, i.op = .call name args → c.program.lookupFunction top.unit name = none) →
      Step c { c with stack := top.next :: below } := by
    intro hret hcall
    have hpass := Step.pass [] hstarted hstack hentered hinstr hseen hret hcall nofun
    rwa [List.append_nil] at hpass
  cases hop : i.op with
  | load value => exact plain (by simp [hop]) (by simp [hop])
  | store binding name => exact plain (by simp [hop]) (by simp [hop])
  | print value => exact plain (by simp [hop]) (by simp [hop])
  | ret => exact .ret hstarted hstack hentered hinstr hseen hop
  | call name args =>
      rw [perform]
      cases hcallee : c.program.lookupFunction top.unit name with
      | some callee => exact .call hstarted hstack hentered hinstr hseen hop hcallee
      | none =>
          refine plain (by simp [hop]) fun other args' hcall => ?_
          obtain ⟨rfl, -⟩ : name = other ∧ args = args' := by simpa [hop] using hcall
          exact hcallee
  | defer name args =>
      rw [perform]
      cases hcallee : c.program.lookupFunction top.unit name with
      | some callee =>
          refine .pass [callee] hstarted hstack hentered hinstr hseen (by simp [hop])
            (by simp [hop]) fun unit hunit => ?_
          obtain rfl : unit = callee := by simpa using hunit
          exact ⟨name, hcallee⟩
      | none => exact plain (by simp [hop]) (by simp [hop])

/-- Every tick follows a rule. -/
theorem step_tick (c : Control) : Step c c.tick := by
  unfold tick
  by_cases hstarted : (!c.started) = true
  · rw [if_pos hstarted]
    exact .start (by simpa using hstarted)
  rw [if_neg hstarted]
  have hstarted : c.started = true := by simpa using hstarted
  split
  · rename_i hstack
    split
    · rename_i hqueue
      exact .finish hstarted hstack hqueue
    · rename_i hqueue
      exact .unqueue hstarted hstack hqueue
  · rename_i top below hstack
    by_cases hentered : (!top.entered) = true
    · rw [if_pos hentered]
      exact .enter hstarted hstack (by simpa using hentered)
    rw [if_neg hentered]
    have hentered : top.entered = true := by simpa using hentered
    split
    · rename_i hend
      exact .leave hstarted hstack hentered hend
    · rename_i i hinstr
      split
      · rename_i hseen
        exact .consider hstarted hstack hentered hinstr (by simpa using hseen)
      · rename_i hseen
        exact step_perform hstarted hstack hentered hinstr (by simpa using hseen)

theorem push_of_unit {c : Control} {unit : UnitId} (h : (c.program.unit? unit).isSome) :
    c.push unit =
      { c with nextFrame := c.nextFrame + 1, stack := .fresh c.nextFrame unit :: c.stack } := by
  rw [push, if_pos h]

theorem push_program (c : Control) (unit : UnitId) : (c.push unit).program = c.program := by
  unfold push
  split <;> rfl

theorem Step.program_eq {c d : Control} (h : Step c d) : d.program = c.program := by
  cases h with
  | start => exact push_program _ _
  | unqueue => exact push_program _ _
  | call => exact push_program _ _
  | _ => rfl

theorem after_program (c : Control) (n : Nat) : (c.after n).program = c.program := by
  induction n with
  | zero => rfl
  | succ n ih => exact (step_tick _).program_eq.trans ih

end Control

/-! ## The control of a step -/

theorem control_push (s : State) (unit : UnitId) (args : List Value) (callee : Option String) :
    (s.push unit args callee).control = s.control.push unit := by
  have hprogram : s.control.program = s.program := rfl
  unfold State.push Control.push
  rw [hprogram]
  cases s.program.unit? unit with
  | none => rfl
  | some code => rfl

theorem control_resumeCaller (stack : List Activation) :
    (State.resumeCaller stack).map Activation.control =
      Control.resumeCaller (stack.map Activation.control) := by
  cases stack with
  | nil => rfl
  | cons caller rest =>
      simp only [State.resumeCaller, List.map_cons, Control.resumeCaller]
      rw [show caller.control.awaitingReturn = caller.awaitingReturn from rfl]
      split <;> rfl

theorem control_pop (s : State) : s.pop.control = s.control.pop := by
  have hstack := control_resumeCaller s.stack.tail
  rw [List.map_tail] at hstack
  simp only [State.control, State.pop, Control.pop, hstack]

theorem control_perform (s : State) (top : Activation) (below : List Activation) (op : Op) :
    (s.perform top below op).control =
      s.control.perform top.control (below.map Activation.control) op := by
  have hprogram : s.control.program = s.program := rfl
  have hunit : top.control.unit = top.unit := rfl
  cases op with
  | call name args =>
      rw [State.perform, Control.perform, hprogram, hunit]
      cases s.program.lookupFunction top.unit name with
      | none => rfl
      | some callee =>
          exact control_push
            { s with
              heap := (State.evaluateAll s.heap top args).1
              stack := { top with awaitingReturn := true } :: below } callee _ _
  | defer name args =>
      rw [State.perform, Control.perform, hprogram, hunit]
      cases s.program.lookupFunction top.unit name with
      | none => rfl
      | some callee =>
          simp only [State.control, List.map_append, List.map_cons, List.map_nil]
          rfl
  | _ => rfl

theorem control_stack {s : State} {top : Activation} {below : List Activation}
    (hstack : s.stack = top :: below) :
    s.control.stack = top.control :: below.map Activation.control := by
  rw [State.control, hstack, List.map_cons]

/-- A tick of the machine is a tick of its control. -/
theorem control_tick (s : State) : s.tick.control = s.control.tick := by
  have hstep := State.step_advance .none s
  change State.Step .none s s.tick (State.advance .none s).2 at hstep
  generalize (State.advance .none s).2 = event at hstep
  generalize s.tick = t at hstep
  cases hstep with
  | start hstarted =>
      rw [Control.tick_start (c := s.control) hstarted]
      exact control_push { s with started := true } _ _ _
  | finish hstarted hstack hdeferred =>
      refine (Control.tick_finish (c := s.control) hstarted ?_ ?_).symm
      · rw [State.control, hstack, List.map_nil]
      · rw [State.control, hdeferred, List.map_nil]
  | @unqueue call rest hstarted hstack hdeferred =>
      have hnil : s.control.stack = [] := by rw [State.control, hstack, List.map_nil]
      have hqueue : s.control.queue = call.unit :: rest.map DeferredCall.unit := by
        rw [State.control, hdeferred, List.map_cons]
      rw [Control.tick_unqueue (c := s.control) hstarted hnil hqueue]
      exact control_push { s with deferred := rest } _ _ _
  | enter hstarted hstack hentered =>
      exact (Control.tick_enter (c := s.control) hstarted (control_stack hstack) hentered).symm
  | report _ _ _ _ _ hhook => cases hhook
  | leave hstarted hstack hentered hend =>
      rw [Control.tick_leave (c := s.control) hstarted (control_stack hstack) hentered hend]
      exact control_pop s
  | consider hstarted hstack hentered hinstr hseen =>
      have hcontrol := control_stack hstack
      exact (Control.tick_consider (c := s.control) hstarted hcontrol hentered hinstr hseen).symm
  | execute hstarted hstack hentered hinstr hseen =>
      have hcontrol := control_stack hstack
      rw [Control.tick_execute (c := s.control) hstarted hcontrol hentered hinstr hseen]
      exact control_perform s _ _ _

theorem control_after (s : State) (n : Nat) : (s.after n).control = s.control.after n := by
  induction n with
  | zero => rfl
  | succ n ih => rw [State.after, control_tick, ih, Control.after]

/-- Whether a program has ended shows in its control. -/
theorem isFinished_eq (s : State) :
    s.isFinished = (s.control.started && s.control.stack.isEmpty && s.control.queue.isEmpty) := by
  simp [State.isFinished, State.control]

theorem point?_finished {s : State} (h : s.isFinished = true) : s.control.point? = none := by
  simp only [State.isFinished, Bool.and_eq_true, List.isEmpty_iff] at h
  simp [Control.point?, State.control, h.1.2]

/-- The report of a frame's end leaves control as it is; any other small step under hooks is a tick
of control. -/
theorem State.Step.control_eq {hooks : Hooks} {s t : State} {event : Option Event}
    (h : State.Step hooks s t event) :
    (t.control = s.control ∧ ∃ frame, event = some (.pop frame)) ∨ t.control = s.control.tick := by
  by_cases hpop : ∃ frame, event = some (.pop frame)
  · obtain ⟨frame, rfl⟩ := hpop
    obtain ⟨top, below, -, hstack, -, -, -, -, rfl⟩ := h.pop_inv
    refine Or.inl ⟨?_, frame, rfl⟩
    simp [State.control, hstack, Activation.control]
  · have hpop : ∀ frame, event ≠ some (.pop frame) := fun frame hevent => hpop ⟨frame, hevent⟩
    rw [h.eq_tick hpop]
    exact Or.inr (control_tick s)

end ScriptDebugger.Machine
