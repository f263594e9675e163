import Mathlib
import ScriptDebugger.Proofs.Machine.Boundaries
import ScriptDebugger.Proofs.Machine.Refinement
/-!
# Programs without a cycle of calls

A unit refers to the functions that its calls and its deferrals mean. Where no function leads back
to itself along such references, each unit has a bound for the small steps that a frame of it takes,
those of all that it calls and defers included.

The steps that a state has left are added up from these bounds: for a frame on the stack, what is
behind its place; for a deferred call, all of its function. Every small step takes at least one of
them, also the steps that leave the place of the frame alone: the entry of a frame, the
consideration of a boundary, the report of an end. A call hands the steps of the callee over from
the instruction to the new frame, and what the caller has left does not count the callee again.

## Main results

* `exists_bounds` — the units of a program without a cycle have bounds.
* `State.Step.stepsLeft_lt` — every small step but the last one takes a step off what is left.
* `Session.stops_le` — the stops of a session are not more than the steps that it took.
* `acyclic_program_ends` — such a program comes to its end, however it is stopped on the way.
-/

namespace ScriptDebugger.Machine

open Source (Instruction Op)

namespace Program

/-! ## References -/

/-- The instructions of a unit. -/
def code (p : Program) (unit : UnitId) : List Instruction := ((p.unit? unit).map (·.code)).getD []

/-- The function that an operation of a unit calls or defers. -/
def target? (p : Program) (unit : UnitId) : Op → Option UnitId
  | .call name _ | .defer name _ => p.lookupFunction unit name
  | .load _ | .store _ _ | .print _ | .ret => none

/-- The functions that a unit calls or defers. -/
def targets (p : Program) (unit : UnitId) : List UnitId :=
  (p.code unit).filterMap fun i => p.target? unit i.op

/-- A unit calls or defers another one. -/
def Refers (p : Program) (unit target : UnitId) : Prop := target ∈ p.targets unit

/-- No unit leads back to itself. -/
def Acyclic (p : Program) : Prop := ∀ unit, ¬Relation.TransGen p.Refers unit unit

theorem drop_code {p : Program} {unit : UnitId} {offset : Nat} {i : Instruction}
    (h : p.instruction? unit offset = some i) :
    (p.code unit).drop offset = i :: (p.code unit).drop (offset + 1) := by
  obtain ⟨code, hunit, hi⟩ := Option.bind_eq_some_iff.1 h
  have hcode : p.code unit = code.code := by rw [Program.code, hunit]; rfl
  obtain ⟨hlt, hi⟩ := List.getElem?_eq_some_iff.1 hi
  rw [hcode, List.drop_eq_getElem_cons hlt, hi]

theorem drop_code_codeLength (p : Program) (unit : UnitId) :
    (p.code unit).drop (p.codeLength unit) = [] := by
  rw [Program.code, codeLength]
  cases p.unit? unit with
  | none => rfl
  | some code => exact List.drop_length

/-- What a unit refers to is a unit. -/
theorem Refers.unit? {p : Program} {unit target : UnitId} (h : p.Refers unit target) :
    (p.unit? target).isSome := by
  obtain ⟨i, -, hi⟩ := List.mem_filterMap.1 h
  cases hop : i.op with
  | call name args | defer name args =>
      rw [hop] at hi
      exact unit?_of_lookupFunction hi
  | _ =>
      rw [hop] at hi
      cases hi

/-- Whether every reference leads up in a ranking of the units. -/
def ascends (p : Program) (rank : UnitId → Nat) : Bool :=
  (List.range p.units.length).all fun number =>
    (p.targets ⟨number⟩).all fun target => rank ⟨number⟩ < rank target

theorem acyclic_of_ascends {p : Program} {rank : UnitId → Nat} (h : p.ascends rank = true) :
    p.Acyclic := by
  have hstep : ∀ {unit target}, p.Refers unit target → rank unit < rank target := by
    intro unit target hrefers
    have hlt : unit.number < p.units.length := by
      refine Nat.lt_of_not_le fun hle => ?_
      have hnone : p.unit? unit = none := List.getElem?_eq_none hle
      rw [Refers, targets, Program.code, hnone] at hrefers
      cases hrefers
    have hunit := List.all_eq_true.1 h unit.number (List.mem_range.2 hlt)
    exact of_decide_eq_true (List.all_eq_true.1 hunit target hrefers)
  have hup : ∀ {unit target}, Relation.TransGen p.Refers unit target → rank unit < rank target := by
    intro unit target hpath
    induction hpath with
    | single hrefers => exact hstep hrefers
    | tail _ hrefers ih => exact ih.trans (hstep hrefers)
  exact fun unit hcycle => Nat.lt_irrefl _ (hup hcycle)

/-- There are finitely many units, so without a cycle no path of references goes on forever. -/
theorem Acyclic.wellFounded {p : Program} (h : p.Acyclic) :
    WellFounded fun target unit => p.Refers unit target := by
  -- the units themselves, by the paths between them
  let Leads (target unit : { u : UnitId // (p.unit? u).isSome }) : Prop :=
    Relation.TransGen p.Refers unit.1 target.1
  have hfinite : Finite { u : UnitId // (p.unit? u).isSome } := by
    have hnumber : ∀ u : { u : UnitId // (p.unit? u).isSome }, u.1.number < p.units.length :=
      fun u => (List.getElem?_eq_some_iff.1 (Option.isSome_iff_exists.1 u.2).choose_spec).1
    refine Finite.of_injective (β := Fin p.units.length) (fun u => ⟨u.1.number, hnumber u⟩) ?_
    intro u v huv
    have hsame : u.1.number = v.1.number := congrArg Fin.val huv
    exact Subtype.ext (by cases hu : u.1; cases hv : v.1; simp_all)
  have htrans : IsTrans _ Leads := ⟨fun _ _ _ hab hbc => hbc.trans hab⟩
  have hirrefl : Std.Irrefl Leads := ⟨fun u => h u.1⟩
  have hunits : WellFounded Leads := Finite.wellFounded_of_trans_of_irrefl Leads
  have hacc : ∀ u : { u : UnitId // (p.unit? u).isSome },
      Acc (fun target unit => p.Refers unit target) u.1 := by
    intro u
    induction u using hunits.induction with
    | _ u ih =>
        refine .intro _ fun target hrefers => ?_
        exact ih ⟨target, hrefers.unit?⟩ (.single hrefers)
  exact ⟨fun unit => .intro _ fun target hrefers => hacc ⟨target, hrefers.unit?⟩⟩

/-! ## Bounds for the units -/

section

variable (p : Program) (steps : UnitId → Nat)

/-- The steps of what an operation starts, if those of a frame of a unit are `steps`. One step more
takes the call off the queue. -/
def opSteps (unit : UnitId) (op : Op) : Nat :=
  match p.target? unit op with
  | some target => steps target + 1
  | none => 0

/-- The steps that instructions of a unit take, with what they start. -/
def codeSteps (unit : UnitId) (code : List Instruction) : Nat :=
  (code.map fun i => 2 + opSteps p steps unit i.op).sum

end

/-- For each unit a bound for the steps of a frame, with all that it starts. Three steps more than
its instructions take are for its entry and its end. -/
structure Bounds (p : Program) where
  /-- The bound of a unit. -/
  steps : UnitId → Nat
  covers : ∀ unit, 3 + codeSteps p steps unit (p.code unit) ≤ steps unit

open Classical in
/-- The units of a program without a cycle have bounds. -/
theorem exists_bounds {p : Program} (h : p.Acyclic) : Nonempty (Bounds p) := by
  let bound : ∀ unit, (∀ target, p.Refers unit target → Nat) → Nat := fun unit smaller =>
    3 + ((p.code unit).map fun i => 2 + match p.target? unit i.op with
      | some target => (if hrefers : p.Refers unit target then smaller target hrefers else 0) + 1
      | none => 0).sum
  refine ⟨⟨h.wellFounded.fix bound, fun unit => Nat.le_of_eq ?_⟩⟩
  rw [h.wellFounded.fix_eq]
  refine congrArg (3 + List.sum ·) (List.map_congr_left fun i hi => ?_)
  rw [opSteps]
  cases htarget : p.target? unit i.op with
  | none => rfl
  | some target =>
      have hrefers : p.Refers unit target := List.mem_filterMap.2 ⟨i, hi, htarget⟩
      simp only [dif_pos hrefers]

end Program

namespace Program.Bounds

/-- The steps at the entry and at the end of a frame that it has left. -/
def edges (a : Activation) : Nat :=
  (if a.entered then 0 else 1) + (if a.popReported then 0 else 1) + 1

variable {p : Program} (b : p.Bounds)

/-- The steps that a frame has ahead of it behind its entry and before its end. -/
def ahead (a : Activation) : Nat :=
  if a.awaitingReturn then codeSteps p b.steps a.unit ((p.code a.unit).drop (a.pc + 1))
  else
    match (p.code a.unit).drop a.pc with
    | [] => 0
    | i :: rest =>
      (if a.boundarySeen then 1 else 2) + opSteps p b.steps a.unit i.op +
        codeSteps p b.steps a.unit rest

/-- The steps that a frame has left. -/
def frameSteps (a : Activation) : Nat := edges a + b.ahead a

/-- The steps that a machine has left. -/
def stepsLeft (s : State) : Nat :=
  (if s.started then 0 else b.steps ⟨0⟩ + 1) + (s.stack.map b.frameSteps).sum +
    (s.deferred.map fun call => b.steps call.unit + 1).sum

section

variable {a : Activation}

theorem ahead_of_unseen (hrunning : a.awaitingReturn = false) (hseen : a.boundarySeen = false) :
    b.ahead a = codeSteps p b.steps a.unit ((p.code a.unit).drop a.pc) := by
  unfold ahead
  rw [hrunning, hseen]
  cases (p.code a.unit).drop a.pc with
  | nil => rfl
  | cons i rest => simp [codeSteps]

theorem ahead_of_seen (hrunning : a.awaitingReturn = false) (hseen : a.boundarySeen = true)
    {i : Instruction} (hinstr : p.instruction? a.unit a.pc = some i) :
    b.ahead a = 1 + opSteps p b.steps a.unit i.op +
      codeSteps p b.steps a.unit ((p.code a.unit).drop (a.pc + 1)) := by
  unfold ahead
  rw [hrunning, hseen, drop_code hinstr]
  rfl

/-- A frame that goes on behind an instruction has taken a step, and what the instruction starts is
not ahead of it any more. -/
theorem frameSteps_eq_next (hrunning : a.awaitingReturn = false) (hseen : a.boundarySeen = true)
    {i : Instruction} (hinstr : p.instruction? a.unit a.pc = some i) :
    b.frameSteps a = b.frameSteps a.next + opSteps p b.steps a.unit i.op + 1 := by
  have hnext : b.ahead a.next = codeSteps p b.steps a.unit ((p.code a.unit).drop (a.pc + 1)) :=
    b.ahead_of_unseen hrunning rfl
  have hedges : edges a.next = edges a := rfl
  rw [frameSteps, frameSteps, b.ahead_of_seen hrunning hseen hinstr, hnext, hedges]
  omega

/-- A frame that waits for a call has as much ahead of it as behind the call. -/
theorem frameSteps_waiting (hwaiting : a.awaitingReturn = true) :
    b.frameSteps { a.next with awaitingReturn := false } = b.frameSteps a := by
  have hnext : b.ahead { a.next with awaitingReturn := false } =
      codeSteps p b.steps a.unit ((p.code a.unit).drop (a.pc + 1)) := b.ahead_of_unseen rfl rfl
  rw [frameSteps, frameSteps, hnext, ahead, if_pos hwaiting]
  rfl

theorem sum_resumeCaller (below : List Activation) :
    ((State.resumeCaller below).map b.frameSteps).sum = (below.map b.frameSteps).sum := by
  cases below with
  | nil => rfl
  | cons caller rest =>
      rw [State.resumeCaller]
      split
      · rename_i hwaiting
        rw [List.map_cons, List.map_cons, b.frameSteps_waiting hwaiting]
      · rfl

end

/-! ## A step takes a step -/

variable {s t : State}

/-- A new frame brings no more than the steps of its unit. -/
theorem stepsLeft_push_le (hprogram : s.program = p) (unit : UnitId) (args : List Value)
    (callee : Option String) :
    b.stepsLeft (s.push unit args callee) ≤ b.stepsLeft s + b.steps unit := by
  unfold State.push
  rw [hprogram]
  split
  · exact Nat.le_add_right _ _
  · rename_i code hcode
    have hcovers := b.covers unit
    have hfresh : ∀ fresh : Activation, fresh.unit = unit → fresh.pc = 0 → edges fresh = 3 →
        fresh.awaitingReturn = false → fresh.boundarySeen = false →
        b.frameSteps fresh ≤ b.steps unit := by
      rintro fresh rfl hpc hedges hrunning hseen
      rw [frameSteps, b.ahead_of_unseen hrunning hseen, hpc, hedges]
      exact hcovers
    have hsteps := hfresh
      { id := ⟨s.nextFrame⟩, unit, pc := 0
        bindings := Activation.initialBindings code.params code.declared args
        this := if code.parent.isNone then .object Heap.globalId else .undefined
        callee } rfl rfl rfl rfl rfl
    simp only [stepsLeft, List.map_cons, List.sum_cons]
    omega

section

variable {top : Activation} {below : List Activation} (hstack : s.stack = top :: below)

include hstack

theorem stepsLeft_eq : b.stepsLeft s = (if s.started then 0 else b.steps ⟨0⟩ + 1) +
    (b.frameSteps top + (below.map b.frameSteps).sum) +
      (s.deferred.map fun call => b.steps call.unit + 1).sum := by
  rw [stepsLeft, hstack, List.map_cons, List.sum_cons]

/-- A step of the running frame alone. -/
theorem stepsLeft_retop_lt {top' : Activation} (hstack' : t.stack = top' :: below)
    (hstarted : t.started = s.started) (hdeferred : t.deferred = s.deferred)
    (htop : b.frameSteps top' < b.frameSteps top) : b.stepsLeft t < b.stepsLeft s := by
  rw [b.stepsLeft_eq hstack, b.stepsLeft_eq hstack', hstarted, hdeferred]
  omega

/-- An instruction takes a step, and what it starts has no more steps than it was given. -/
theorem stepsLeft_perform_lt (hprogram : s.program = p) (hrunning : top.awaitingReturn = false)
    (hseen : top.boundarySeen = true) {i : Instruction}
    (hinstr : p.instruction? top.unit top.pc = some i) :
    b.stepsLeft (s.perform top below i.op) < b.stepsLeft s := by
  subst hprogram
  have hnext := b.frameSteps_eq_next hrunning hseen hinstr
  have hpass : b.frameSteps top.next < b.frameSteps top := by omega
  have hgiven : ∀ callee, s.program.target? top.unit i.op = some callee →
      opSteps s.program b.steps top.unit i.op = b.steps callee + 1 := by
    intro callee hcallee
    rw [opSteps, hcallee]
  cases hop : i.op with
  | load value => exact b.stepsLeft_retop_lt hstack rfl rfl rfl hpass
  | store binding name => exact b.stepsLeft_retop_lt hstack rfl rfl rfl hpass
  | print value => exact b.stepsLeft_retop_lt hstack rfl rfl rfl hpass
  | ret =>
      let gone : Activation :=
        { top with pc := s.program.codeLength top.unit, boundarySeen := false }
      have hgone : b.frameSteps gone = edges top := by
        have hahead : b.ahead gone = _ := b.ahead_of_unseen hrunning rfl
        rw [frameSteps, hahead, drop_code_codeLength]
        rfl
      have hsplit : b.frameSteps top = edges top + b.ahead top := rfl
      have hahead := b.ahead_of_seen hrunning hseen hinstr
      have hless : b.frameSteps gone < b.frameSteps top := by omega
      exact b.stepsLeft_retop_lt hstack rfl rfl rfl hless
  | call name args =>
      simp only [State.perform]
      cases hcallee : s.program.lookupFunction top.unit name with
      | none => exact b.stepsLeft_retop_lt hstack rfl rfl rfl hpass
      | some callee =>
          have hgiven := hgiven callee (by rw [hop]; exact hcallee)
          let waiting : Activation := { top with awaitingReturn := true }
          have hwaiting : b.frameSteps waiting = b.frameSteps top.next := by
            rw [← b.frameSteps_waiting (a := waiting) rfl]
            simp only [waiting, Activation.next, hrunning]
          have hpush := b.stepsLeft_push_le (s := { s with
            heap := (State.evaluateAll s.heap top args).1
            stack := waiting :: below }) rfl callee (State.evaluateAll s.heap top args).2 (some name)
          refine Nat.lt_of_le_of_lt hpush ?_
          rw [b.stepsLeft_eq hstack]
          simp only [stepsLeft, List.map_cons, List.sum_cons]
          omega
  | defer name args =>
      simp only [State.perform]
      cases hcallee : s.program.lookupFunction top.unit name with
      | none => exact b.stepsLeft_retop_lt hstack rfl rfl rfl hpass
      | some callee =>
          have hgiven := hgiven callee (by rw [hop]; exact hcallee)
          rw [b.stepsLeft_eq hstack]
          simp only [stepsLeft, List.map_cons, List.sum_cons, List.map_append, List.sum_append,
            List.map_nil, List.sum_nil]
          omega

end

end Program.Bounds

/-- Every small step but the last one takes a step off what is left. -/
theorem State.Step.stepsLeft_lt {p : Program} (b : p.Bounds) {s t : State} {hooks : Hooks}
    {event : Option Event} (h : State.Step hooks s t event) (hprogram : s.program = p)
    (hrunning : ∀ top below, s.stack = top :: below → top.awaitingReturn = false)
    (hmore : event ≠ some .finished) : b.stepsLeft t < b.stepsLeft s := by
  cases h with
  | finish => exact absurd rfl hmore
  | start hstarted =>
      have hpush := b.stepsLeft_push_le (s := { s with started := true }) hprogram ⟨0⟩ [] none
      refine Nat.lt_of_le_of_lt hpush ?_
      simp only [Program.Bounds.stepsLeft, hstarted, Bool.false_eq_true, if_false, if_true]
      omega
  | @unqueue call rest hstarted hstack hdeferred =>
      have hpush := b.stepsLeft_push_le (s := { s with deferred := rest }) hprogram call.unit
        call.args (some call.name)
      refine Nat.lt_of_le_of_lt hpush ?_
      simp only [Program.Bounds.stepsLeft, hdeferred, List.map_cons, List.sum_cons]
      omega
  | @enter top below _ hstack hentered =>
      have hahead : b.ahead { top with entered := true } = b.ahead top := rfl
      refine b.stepsLeft_retop_lt hstack rfl rfl rfl ?_
      simp only [Program.Bounds.frameSteps, Program.Bounds.edges, hahead, hentered]
      simp
  | @report top below _ hstack _ _ hreported =>
      have hahead : b.ahead { top with popReported := true } = b.ahead top := rfl
      refine b.stepsLeft_retop_lt hstack rfl rfl rfl ?_
      simp only [Program.Bounds.frameSteps, Program.Bounds.edges, hahead, hreported]
      simp
  | @leave top below _ hstack =>
      have hone : 0 < b.frameSteps top := by
        simp only [Program.Bounds.frameSteps, Program.Bounds.edges]
        omega
      rw [b.stepsLeft_eq hstack]
      simp only [Program.Bounds.stepsLeft, State.pop, hstack, List.tail_cons, b.sum_resumeCaller]
      omega
  | @consider top below i _ hstack _ hinstr hseen =>
      have hrunning := hrunning top below hstack
      rw [hprogram] at hinstr
      have hahead := b.ahead_of_unseen hrunning hseen
      have hthere := b.ahead_of_seen (a := { top with boundarySeen := true }) hrunning rfl hinstr
      rw [Program.drop_code hinstr] at hahead
      refine b.stepsLeft_retop_lt hstack rfl rfl rfl ?_
      have hedges : Program.Bounds.edges { top with boundarySeen := true } =
          Program.Bounds.edges top := rfl
      rw [Program.Bounds.frameSteps, Program.Bounds.frameSteps, hahead, hthere, hedges]
      simp only [Program.codeSteps, List.map_cons, List.sum_cons]
      omega
  | execute _ hstack _ hinstr hseen =>
      exact b.stepsLeft_perform_lt hstack hprogram (hrunning _ _ hstack) hseen (hprogram ▸ hinstr)

/-! ## Runs come to their end -/

/-- Whether a mark reports a stop before the end of the program. -/
def Mark.isStop : Mark → Bool
  | .reported .finished => false
  | m => m.isReport

/-- A small step marks at most one stop, and none at the end. -/
theorem countP_isStop_marks (hooks : Hooks) (s : State) :
    (s.marks hooks).countP Mark.isStop =
      ((s.advance hooks).2.toList.map Mark.reported).countP Mark.isStop := by
  obtain ⟨quiet, hquiet, hmarks⟩ := marks_eq hooks s
  have hnone : quiet.countP Mark.isStop = 0 := by
    refine List.countP_eq_zero.2 fun m hm hstop => ?_
    have hreport := hquiet m hm
    cases m with
    | reported event => cases hreport
    | considered => cases hstop
    | executed x => cases hstop
  rw [hmarks, List.countP_append, hnone, Nat.zero_add]

namespace Session

variable {library : String → Option String} {program : Program} {log : List Mark} {s : State}

/-- A session keeps the program. -/
theorem program_eq {s₀ : State} (h : Session s₀ log s) : s.program = s₀.program := by
  induction h with
  | start => rfl
  | @advance log s hooks h ih => exact (State.step_advance hooks s).program_eq.trans ih
  | @setBreakpoint log s unit offset h ih =>
      obtain ⟨places, hset⟩ := State.setBreakpoint_eq s unit offset
      rw [hset]
      exact ih
  | clearBreakpoint unit offset h ih => exact ih

/-- The running frame does not wait for a call. -/
theorem running (h : Session (State.initial library program) log s) (top : Activation)
    (below : List Activation) (hstack : s.stack = top :: below) : top.awaitingReturn = false :=
  h.kept.sound.running top.control (below.map Activation.control) (control_stack hstack)

section

variable (b : program.Bounds)

/-- A step of a session stops for the end, or takes a step off what is left. -/
theorem finished_or_lt (h : Session (State.initial library program) log s) (hooks : Hooks) :
    (s.advance hooks).2 = some .finished ∧ (s.advance hooks).1 = s ∧ s.isFinished = true ∨
      (s.advance hooks).2 ≠ some .finished ∧
        b.stepsLeft (s.advance hooks).1 < b.stepsLeft s := by
  have hstep := State.step_advance hooks s
  by_cases hend : (s.advance hooks).2 = some .finished
  · rw [hend] at hstep
    obtain ⟨hsame, hstarted, hstack, hdeferred⟩ := hstep.finish_inv
    refine Or.inl ⟨hend, hsame, ?_⟩
    rw [State.isFinished, hstarted, hstack, hdeferred]
    rfl
  · exact Or.inr ⟨hend, hstep.stepsLeft_lt b h.program_eq h.running hend⟩

/-- The stops of a session are not more than the steps that it took. -/
theorem stops_le (h : Session (State.initial library program) log s) :
    log.countP Mark.isStop + b.stepsLeft s ≤ b.stepsLeft (State.initial library program) := by
  induction h with
  | start => exact Nat.le_of_eq (Nat.zero_add _)
  | @advance log s hooks h ih =>
      rw [List.countP_append, countP_isStop_marks]
      rcases h.finished_or_lt b hooks with ⟨hend, hsame, -⟩ | ⟨-, hless⟩
      · rw [hend, hsame]
        exact ih
      · have hone : ((s.advance hooks).2.toList.map Mark.reported).countP Mark.isStop ≤ 1 :=
          List.countP_le_length.trans (by cases (s.advance hooks).2 <;> simp)
        omega
  | @setBreakpoint log s unit offset h ih =>
      obtain ⟨places, hset⟩ := State.setBreakpoint_eq s unit offset
      rw [hset]
      exact ih
  | clearBreakpoint unit offset h ih => exact ih

include b

/-- To resume stops, for the end at the latest. -/
theorem resumes (h : Session (State.initial library program) log s) (hooks : Hooks) :
    ∃ t event, Engine.Resumes hooks s t event := by
  -- by the steps that are left
  induction hsteps : b.stepsLeft s using Nat.strong_induction_on generalizing log s with
  | _ left ih =>
      rcases hadvance : s.advance hooks with ⟨next, event⟩
      have hengine : Engine.advance hooks s = (next, event) := hadvance
      cases event with
      | some event => exact ⟨next, event, 1, by rw [Engine.resumeWithin, hengine]⟩
      | none =>
          have hnext := h.advance hooks
          have hless := h.finished_or_lt b hooks
          rw [hadvance] at hnext hless
          rcases hless with ⟨hend, -⟩ | ⟨-, hless⟩
          · cases hend
          · obtain ⟨t, event, fuel, hfuel⟩ := ih _ (hsteps ▸ hless) hnext rfl
            exact ⟨t, event, fuel + 1, by rw [Engine.resumeWithin, hengine]; exact hfuel⟩

/-- Under no hooks, and past any breakpoint, the program ends. -/
theorem runs (h : Session (State.initial library program) log s) :
    ∃ t, s.Runs t ∧ t.isFinished = true := by
  have hends : ∃ n, (s.after n).isFinished = true := by
    induction hsteps : b.stepsLeft s using Nat.strong_induction_on generalizing log s with
    | _ left ih =>
        rcases h.finished_or_lt b .none with ⟨-, -, hfinished⟩ | ⟨-, hless⟩
        · exact ⟨0, hfinished⟩
        · obtain ⟨n, hn⟩ := ih _ (hsteps ▸ hless) (h.advance .none) rfl
          refine ⟨1 + n, ?_⟩
          rw [State.after_add]
          exact hn
  obtain ⟨n, hn⟩ := hends
  exact ⟨s.after n, runs_of_after hn, hn⟩

end

end Session

/-- A compiled program without a cycle of calls and deferrals comes to its end: wherever it is taken
up and under whatever hooks and breakpoints, to resume it returns, it stops only so many times
before its end, and a run past all stops finishes it. -/
theorem acyclic_program_ends {library : String → Option String} {url source : String} {s₀ : State}
    (hsource : State.ofSource library url source = .ok s₀) (hacyclic : s₀.program.Acyclic) :
    ∃ bound, ∀ log s, Session s₀ log s →
      (∀ hooks, ∃ t event, Engine.Resumes hooks s t event) ∧
      log.countP Mark.isStop ≤ bound ∧
      ∃ t, s.Runs t ∧ t.isFinished = true := by
  obtain ⟨program, rfl⟩ : ∃ program, s₀ = State.initial library program := by
    unfold State.ofSource at hsource
    cases hprogram : Program.ofSource url source with
    | error fault =>
        rw [hprogram] at hsource
        cases hsource
    | ok program =>
        rw [hprogram] at hsource
        exact ⟨program, (Except.ok.inj hsource).symm⟩
  obtain ⟨b⟩ := Program.exists_bounds hacyclic
  refine ⟨b.stepsLeft (State.initial library program), fun log s h => ?_⟩
  exact ⟨h.resumes b, (Nat.le_add_right _ _).trans (h.stops_le b), h.runs b⟩

/-- A function that defers one function and calls a nested one; the deferred one defers again. -/
theorem acyclic_program_ends_deferring :
    ∃ s₀ bound,
      State.ofSource (fun _ => none) "main.mod"
        ("function g\n  defer k\n  print 1\nend\nfunction k\nend\n" ++
          "function f\n  defer g\n  call h\n  function h\n    print 2\n  end\nend\ncall f\n") =
            .ok s₀ ∧
      s₀.program.Acyclic ∧
      ∀ log s, Session s₀ log s →
        (∀ hooks, ∃ t event, Engine.Resumes hooks s t event) ∧
        log.countP Mark.isStop ≤ bound ∧
        ∃ t, s.Runs t ∧ t.isFinished = true := by
  let rank : UnitId → Nat := fun unit => [0, 2, 3, 1, 2].getD unit.number 0
  have hcomputed :
      (Program.ofSource "main.mod"
        ("function g\n  defer k\n  print 1\nend\nfunction k\nend\n" ++
          "function f\n  defer g\n  call h\n  function h\n    print 2\n  end\nend\ncall f\n")
        |>.toOption.bind fun program => some (program.units.length, program.ascends rank)) =
          some (5, true) := by cbv
  obtain ⟨program, hsource, hchecked⟩ := Program.exists_of_ofSource hcomputed
  have hascends : program.ascends rank = true := congrArg Prod.snd (Option.some.inj hchecked)
  have hstate := congrArg (Except.map (State.initial fun _ => none)) hsource
  have hacyclic := Program.acyclic_of_ascends hascends
  obtain ⟨bound, hends⟩ := acyclic_program_ends hstate hacyclic
  exact ⟨State.initial (fun _ => none) program, bound, hstate, hacyclic, hends⟩

end ScriptDebugger.Machine
