import Mathlib
import ScriptDebugger.Proofs.Machine.Recorder
import ScriptDebugger.Proofs.Machine.StackShape
/-!
# Boundaries are considered once

A session takes small steps under any hooks, and sets and clears breakpoints between them. Its log
has a mark for each boundary that was considered, with the breakpoint and the hook found there, for
each instruction that was executed, and for each event.

A mark may stand only where the marks before it allow it. What allows it is the place of the frames:
a frame that is still on the stack was considered at no later place than its own, and executed
nothing at its place unless it waits for a call.

## Main results

* `Kept.advance` — a small step keeps the log and the stack in agreement.
* `session_inPlace` — in the log of a session every mark is in its place, and the event of a next
  step names the running frame at an instruction that was not executed.
-/

namespace ScriptDebugger.Machine

open Source (Instruction Op)

/-! ## Logs -/

/-- What happens at the boundaries of instructions. -/
inductive Mark
  /-- The boundary before an instruction is considered; `armed` tells whether there is a breakpoint,
  and `hooked` whether the frame has a step hook. -/
  | considered (frame : FrameId) (unit : UnitId) (offset : Nat) (armed hooked : Bool)
  /-- An instruction is executed. -/
  | executed (execution : Execution)
  /-- The run stops for an event. -/
  | reported (event : Event)
  deriving DecidableEq, Repr

namespace State

/-- The boundary that the next small step considers, if it considers one. -/
def consideration? (hooks : Hooks) (s : State) : Option Mark :=
  match s.stack with
  | [] => none
  | top :: _ =>
    if s.started && top.entered && !top.boundarySeen &&
        (s.program.instruction? top.unit top.pc).isSome then
      some
        (.considered top.id top.unit top.pc (s.hasBreakpoint top.unit top.pc)
          (hooks.action top.id == some .step))
    else none

/-- The marks of a small step. -/
def marks (hooks : Hooks) (s : State) : List Mark :=
  (s.consideration? hooks).toList ++ s.execution?.toList.map Mark.executed ++
    (advance hooks s).2.toList.map Mark.reported

end State

/-- The log `log` leads from `s₀` to a state. -/
inductive Session (s₀ : State) : List Mark → State → Prop
  | start : Session s₀ [] s₀
  | advance {log : List Mark} {s : State} (hooks : Hooks) (h : Session s₀ log s) :
      Session s₀ (log ++ s.marks hooks) (s.advance hooks).1
  | setBreakpoint {log : List Mark} {s : State} (unit : UnitId) (offset : Nat)
      (h : Session s₀ log s) : Session s₀ log (Engine.setBreakpoint s unit offset)
  | clearBreakpoint {log : List Mark} {s : State} (unit : UnitId) (offset : Nat)
      (h : Session s₀ log s) : Session s₀ log (Engine.clearBreakpoint s unit offset)

namespace Mark

/-- Whether a mark reports an event. -/
def isReport : Mark → Bool
  | .reported _ => true
  | _ => false

/-- The stop for a boundary: the breakpoint, or else the step. -/
def stops (frame : FrameId) (offset : Nat) (armed hooked : Bool) : List Mark :=
  if armed then [.reported (.breakpoint frame offset)]
  else if hooked then [.reported (.step frame)]
  else []

theorem mem_stops {frame : FrameId} {offset : Nat} {armed hooked : Bool} {m : Mark}
    (h : m ∈ stops frame offset armed hooked) :
    m = .reported (.breakpoint frame offset) ∨ m = .reported (.step frame) := by
  unfold stops at h
  split at h
  · exact Or.inl (List.mem_singleton.1 h)
  · split at h
    · exact Or.inr (List.mem_singleton.1 h)
    · cases h

/-- The boundary of a frame was neither considered nor reported. -/
def Untouched (log : List Mark) (frame : FrameId) (offset : Nat) : Prop :=
  (∀ unit armed hooked, .considered frame unit offset armed hooked ∉ log) ∧
    .reported (.breakpoint frame offset) ∉ log

/-- Whether a mark may stand behind others. An instruction is executed directly behind the first
consideration of its boundary and the stop for it; a breakpoint or a step is reported directly
behind such a consideration; the entry and the end of a frame are reported once. -/
def InPlace (before : List Mark) : Mark → Prop
  | .considered frame _ offset _ _ => Untouched before frame offset
  | .executed x =>
    ∃ earlier armed hooked,
      before = earlier ++ .considered x.frame x.unit x.offset armed hooked ::
        stops x.frame x.offset armed hooked ∧
      Untouched earlier x.frame x.offset
  | .reported (.breakpoint frame offset) =>
    ∃ earlier unit hooked, before = earlier ++ [.considered frame unit offset true hooked] ∧
      Untouched earlier frame offset
  | .reported (.step frame) =>
    ∃ earlier unit offset, before = earlier ++ [.considered frame unit offset false true] ∧
      Untouched earlier frame offset
  | .reported (.enterFrame frame) => .reported (.enterFrame frame) ∉ before
  | .reported (.pop frame) => .reported (.pop frame) ∉ before
  | .reported .finished => True

/-- The frame that a mark is about. -/
def frame? : Mark → Option FrameId
  | .considered frame _ _ _ _ => some frame
  | .executed x => some x.frame
  | .reported (.enterFrame frame) | .reported (.step frame) | .reported (.pop frame)
  | .reported (.breakpoint frame _) => some frame
  | .reported .finished => none

/-- What a mark says about a frame that is on the stack. -/
def Allows (a : Activation) : Mark → Prop
  | .considered frame unit offset _ _ =>
    frame = a.id → unit = a.unit ∧ (offset < a.pc ∨ offset = a.pc ∧ a.boundarySeen = true)
  | .executed x =>
    x.frame = a.id →
      x.unit = a.unit ∧ (x.offset < a.pc ∨ x.offset = a.pc ∧ a.awaitingReturn = true)
  | .reported (.breakpoint frame offset) =>
    frame = a.id → offset < a.pc ∨ offset = a.pc ∧ a.boundarySeen = true
  | .reported (.enterFrame frame) => frame = a.id → a.entered = true
  | .reported (.pop frame) => frame = a.id → a.popReported = true
  | .reported (.step _) | .reported .finished => True

theorem allows_of_frame_ne {a : Activation} {m : Mark} (h : m.frame? ≠ some a.id) :
    m.Allows a := by
  have hne : ∀ frame, m.frame? = some frame → frame ≠ a.id := by
    rintro frame hframe rfl
    exact h hframe
  cases m with
  | considered frame => exact fun heq => absurd heq (hne frame rfl)
  | executed x => exact fun heq => absurd heq (hne x.frame rfl)
  | reported event =>
      cases event with
      | finished => trivial
      | step => trivial
      | enterFrame frame => exact fun heq => absurd heq (hne frame rfl)
      | pop frame => exact fun heq => absurd heq (hne frame rfl)
      | breakpoint frame => exact fun heq => absurd heq (hne frame rfl)

end Mark

/-! ## Frames go forward -/

/-- A frame is another one at the same or a later place. -/
structure Activation.Later (a b : Activation) : Prop where
  id : b.id = a.id
  unit : b.unit = a.unit
  entered : a.entered = true → b.entered = true
  popReported : a.popReported = true → b.popReported = true
  place : a.pc < b.pc ∨ b.pc = a.pc ∧ (a.boundarySeen = true → b.boundarySeen = true) ∧
    (a.awaitingReturn = true → b.awaitingReturn = true)

/-- What a mark says about a frame stays true of it. -/
theorem Mark.Allows.later {a b : Activation} {m : Mark} (h : m.Allows a) (hlater : a.Later b) :
    m.Allows b := by
  have hplace := hlater.place
  cases m with
  | considered frame unit offset armed hooked =>
      intro hframe
      obtain ⟨hunit, hoffset⟩ := h (hframe.trans hlater.id)
      refine ⟨hunit.trans hlater.unit.symm, ?_⟩
      rcases hplace with hplace | ⟨hpc, hseen, -⟩
      · exact Or.inl (by omega)
      · exact hoffset.imp (by omega) fun ⟨heq, hs⟩ => ⟨by omega, hseen hs⟩
  | executed x =>
      intro hframe
      obtain ⟨hunit, hoffset⟩ := h (hframe.trans hlater.id)
      refine ⟨hunit.trans hlater.unit.symm, ?_⟩
      rcases hplace with hplace | ⟨hpc, -, hawaiting⟩
      · exact Or.inl (by omega)
      · exact hoffset.imp (by omega) fun ⟨heq, hs⟩ => ⟨by omega, hawaiting hs⟩
  | reported event =>
      cases event with
      | finished => trivial
      | step => trivial
      | enterFrame frame => exact fun hframe => hlater.entered (h (hframe.trans hlater.id))
      | pop frame => exact fun hframe => hlater.popReported (h (hframe.trans hlater.id))
      | breakpoint frame offset =>
          intro hframe
          have hoffset := h (hframe.trans hlater.id)
          rcases hplace with hplace | ⟨hpc, hseen, -⟩
          · exact Or.inl (by omega)
          · exact hoffset.imp (by omega) fun ⟨heq, hs⟩ => ⟨by omega, hseen hs⟩

theorem Activation.Later.refl (a : Activation) : a.Later a where
  id := rfl
  unit := rfl
  entered h := h
  popReported h := h
  place := Or.inr ⟨rfl, fun h => h, fun h => h⟩

namespace State

/-- A unit gets a new frame. -/
theorem push_stack {s : State} {unit : UnitId} {code : CodeUnit}
    (h : s.program.unit? unit = some code) (args : List Value) (callee : Option String) :
    ∃ fresh : Activation, (s.push unit args callee).stack = fresh :: s.stack ∧
      (s.push unit args callee).nextFrame = s.nextFrame + 1 ∧ fresh.id = ⟨s.nextFrame⟩ ∧
      fresh.boundarySeen = false := by
  unfold push
  rw [h]
  exact ⟨_, rfl, rfl, rfl, rfl⟩

/-- On an empty stack, a unit gets a new frame, or there is no such unit. -/
theorem push_idle {s : State} (hstack : s.stack = []) (unit : UnitId) (args : List Value)
    (callee : Option String) :
    s.nextFrame ≤ (s.push unit args callee).nextFrame ∧
      ∀ a ∈ (s.push unit args callee).stack, a.id = ⟨s.nextFrame⟩ ∧ a.boundarySeen = false := by
  cases hunit : s.program.unit? unit with
  | none =>
      have hpush : s.push unit args callee = s := by
        unfold push
        rw [hunit]
      rw [hpush, hstack]
      exact ⟨Nat.le_refl _, fun a ha => absurd ha List.not_mem_nil⟩
  | some code =>
      obtain ⟨fresh, hfresh, hnumber, hid, hseen⟩ := push_stack hunit args callee
      rw [hfresh, hnumber, hstack]
      refine ⟨Nat.le_succ _, fun a ha => ?_⟩
      obtain rfl := List.mem_singleton.1 ha
      exact ⟨hid, hseen⟩

/-- An executed instruction leads the running frame on, or a new frame stands above it. -/
theorem perform_cases {s : State} {top : Activation} {i : Instruction} (below : List Activation)
    (hinstr : s.program.instruction? top.unit top.pc = some i) :
    (∃ top', (s.perform top below i.op).stack = top' :: below ∧
        (s.perform top below i.op).nextFrame = s.nextFrame ∧ top.Later top' ∧
        top.pc < top'.pc ∧ top'.boundarySeen = false) ∨
      ∃ fresh, (s.perform top below i.op).stack =
          fresh :: { top with awaitingReturn := true } :: below ∧
        (s.perform top below i.op).nextFrame = s.nextFrame + 1 ∧ fresh.id = ⟨s.nextFrame⟩ ∧
        fresh.boundarySeen = false := by
  have hnext : top.pc < top.pc + 1 := Nat.lt_succ_self _
  cases i.op with
  | load value => exact Or.inl ⟨_, rfl, rfl, ⟨rfl, rfl, id, id, Or.inl hnext⟩, hnext, rfl⟩
  | store binding name => exact Or.inl ⟨_, rfl, rfl, ⟨rfl, rfl, id, id, Or.inl hnext⟩, hnext, rfl⟩
  | print value => exact Or.inl ⟨_, rfl, rfl, ⟨rfl, rfl, id, id, Or.inl hnext⟩, hnext, rfl⟩
  | ret =>
      have hend := Program.lt_codeLength hinstr
      exact Or.inl ⟨_, rfl, rfl, ⟨rfl, rfl, id, id, Or.inl hend⟩, hend, rfl⟩
  | defer name args =>
      refine Or.inl ⟨top.next, ?_, ?_, ⟨rfl, rfl, id, id, Or.inl hnext⟩, hnext, rfl⟩
      all_goals
        simp only [perform]
        split <;> rfl
  | call name args =>
      rw [perform]
      cases hcallee : s.program.lookupFunction top.unit name with
      | none => exact Or.inl ⟨_, rfl, rfl, ⟨rfl, rfl, id, id, Or.inl hnext⟩, hnext, rfl⟩
      | some callee =>
          obtain ⟨code, hcode⟩ :=
            Option.isSome_iff_exists.1 (Program.unit?_of_lookupFunction hcallee)
          exact Or.inr (push_stack
            (s := { s with
              heap := (evaluateAll s.heap top args).1
              stack := { top with awaitingReturn := true } :: below }) hcode _ _)

end State

/-! ## The log and the stack agree -/

/-- The log of a session and the state that it leads to. -/
structure Kept (log : List Mark) (s : State) : Prop where
  sound : s.control.Sound
  numbered : ∀ m ∈ log, ∀ frame, m.frame? = some frame → frame.number < s.nextFrame
  allowed : ∀ a ∈ s.stack, ∀ m ∈ log, m.Allows a
  last : ∀ top below, s.stack = top :: below → top.boundarySeen = true →
    ∃ earlier armed hooked,
      log = earlier ++ .considered top.id top.unit top.pc armed hooked ::
        Mark.stops top.id top.pc armed hooked ∧
      Mark.Untouched earlier top.id top.pc
  inPlace : ∀ before m after, log = before ++ m :: after → m.InPlace before

/-- A place in two lists is in the first or in the second one. -/
theorem append_eq_cons_cases {α : Type} {front back before after : List α} {m : α}
    (h : front ++ back = before ++ m :: after) :
    (∃ rest, front = before ++ m :: rest) ∨
      ∃ rest, before = front ++ rest ∧ back = rest ++ m :: after := by
  rcases List.append_eq_append_iff.1 h with ⟨rest, rfl, hback⟩ | ⟨rest, rfl, hafter⟩
  · exact Or.inr ⟨rest, rfl, hback⟩
  · cases rest with
    | nil =>
        refine Or.inr ⟨[], ?_, hafter.symm⟩
        simp
    | cons n rest =>
        obtain ⟨rfl, -⟩ := List.cons.inj hafter
        exact Or.inl ⟨rest, rfl⟩

theorem singleton_eq_append_cons {α : Type} {a m : α} {before after : List α}
    (h : [a] = before ++ m :: after) : before = [] ∧ m = a := by
  cases before with
  | nil => exact ⟨rfl, (List.cons.inj h).1.symm⟩
  | cons first rest =>
      have hlength := congrArg List.length h
      simp at hlength

namespace Kept

variable {log : List Mark} {s t : State} {top : Activation} {below : List Activation}

/-- The frames below have other numbers than the running one. -/
theorem ne_top (h : Kept log s) (hstack : s.stack = top :: below) :
    ∀ a ∈ below, a.id ≠ top.id := by
  intro a ha heq
  have hnested := h.sound.nested top.control (below.map Activation.control) (control_stack hstack)
  have holder : a.id.number < top.id.number := hnested.older (List.mem_map_of_mem ha)
  rw [heq] at holder
  exact Nat.lt_irrefl _ holder

theorem live_top (h : Kept log s) (hstack : s.stack = top :: below) :
    Control.Live s.program top.control :=
  h.sound.live_top (control_stack hstack)

theorem number_top (h : Kept log s) (hstack : s.stack = top :: below) :
    top.id.number < s.nextFrame :=
  h.sound.number_top (control_stack hstack)

/-- The log and the stack agree on frames that were on the stack before and went forward, and on new
ones. -/
theorem allowed_later (h : Kept log s) {a : Activation}
    (ha : (∃ b ∈ s.stack, b.Later a) ∨ a.id = ⟨s.nextFrame⟩) : ∀ m ∈ log, m.Allows a := by
  intro m hm
  rcases ha with ⟨b, hb, hlater⟩ | hid
  · exact (h.allowed b hb m hm).later hlater
  · refine Mark.allows_of_frame_ne fun hframe => ?_
    have hnumber := h.numbered m hm a.id hframe
    rw [hid] at hnumber
    exact Nat.lt_irrefl _ hnumber

/-- A step adds its marks. -/
theorem extend (h : Kept log s) (hsound : t.control.Sound) (new : List Mark)
    (hnext : s.nextFrame ≤ t.nextFrame)
    (hframes : ∀ m ∈ new, ∀ frame, m.frame? = some frame → frame.number < s.nextFrame)
    (hlater : ∀ a ∈ t.stack, (∃ b ∈ s.stack, b.Later a) ∨ a.id = ⟨s.nextFrame⟩)
    (hallowed : ∀ a ∈ t.stack, ∀ m ∈ new, m.Allows a)
    (hlast : ∀ top below, t.stack = top :: below → top.boundarySeen = true →
      ∃ earlier armed hooked,
        log ++ new = earlier ++ .considered top.id top.unit top.pc armed hooked ::
          Mark.stops top.id top.pc armed hooked ∧
        Mark.Untouched earlier top.id top.pc)
    (hplace : ∀ before m after, new = before ++ m :: after → m.InPlace (log ++ before)) :
    Kept (log ++ new) t where
  sound := hsound
  numbered m hm frame hframe := by
    rcases List.mem_append.1 hm with hm | hm
    · exact Nat.lt_of_lt_of_le (h.numbered m hm frame hframe) hnext
    · exact Nat.lt_of_lt_of_le (hframes m hm frame hframe) hnext
  allowed a ha m hm := by
    rcases List.mem_append.1 hm with hm | hm
    · exact h.allowed_later (hlater a ha) m hm
    · exact hallowed a ha m hm
  last := hlast
  inPlace before m after hsplit := by
    rcases append_eq_cons_cases hsplit with ⟨rest, hlog⟩ | ⟨rest, rfl, hnew⟩
    · exact h.inPlace before m rest hlog
    · exact hplace rest m after hnew

/-- A step without marks, behind which no boundary of the running frame is over. -/
theorem silent (h : Kept log s) (hsound : t.control.Sound) (hnext : s.nextFrame ≤ t.nextFrame)
    (hlater : ∀ a ∈ t.stack, (∃ b ∈ s.stack, b.Later a) ∨ a.id = ⟨s.nextFrame⟩)
    (hseen : ∀ top below, t.stack = top :: below → top.boundarySeen = false) :
    Kept (log ++ []) t := by
  refine h.extend hsound [] hnext (fun m hm => absurd hm List.not_mem_nil) hlater
    (fun a _ m hm => absurd hm List.not_mem_nil) ?_ ?_
  · intro top below hstack hover
    rw [hseen top below hstack] at hover
    cases hover
  · intro before m after hnil
    simp at hnil

/-- A step that changes the running frame, and nothing below it. -/
theorem onTop (h : Kept log s) (hsound : t.control.Sound) (hstack : s.stack = top :: below)
    (top' : Activation) (htop : t.stack = top' :: below) (hnext : t.nextFrame = s.nextFrame)
    (hlater : top.Later top') (new : List Mark) (hframes : ∀ m ∈ new, m.frame? = some top.id)
    (hallowed : ∀ m ∈ new, m.Allows top')
    (hlast : top'.boundarySeen = true →
      ∃ earlier armed hooked,
        log ++ new = earlier ++ .considered top'.id top'.unit top'.pc armed hooked ::
          Mark.stops top'.id top'.pc armed hooked ∧
        Mark.Untouched earlier top'.id top'.pc)
    (hplace : ∀ before m after, new = before ++ m :: after → m.InPlace (log ++ before)) :
    Kept (log ++ new) t := by
  refine h.extend hsound new (Nat.le_of_eq hnext.symm) ?_ ?_ ?_ ?_ hplace
  · intro m hm frame hframe
    have hid : some frame = some top.id := hframe.symm.trans (hframes m hm)
    rw [Option.some.inj hid]
    exact h.number_top hstack
  · intro a ha
    rw [htop] at ha
    rcases List.mem_cons.1 ha with rfl | ha
    · exact Or.inl ⟨top, hstack ▸ List.mem_cons_self, hlater⟩
    · exact Or.inl ⟨a, hstack ▸ List.mem_cons_of_mem top ha, Activation.Later.refl a⟩
  · intro a ha m hm
    rw [htop] at ha
    rcases List.mem_cons.1 ha with rfl | ha
    · exact hallowed m hm
    · refine Mark.allows_of_frame_ne fun hframe => h.ne_top hstack a ha ?_
      exact Option.some.inj (hframe.symm.trans (hframes m hm))
  · intro first rest hfirst
    rw [htop] at hfirst
    obtain ⟨rfl, -⟩ := List.cons.inj hfirst
    exact hlast

/-- A boundary that the running frame has before it was not considered. -/
theorem untouched (h : Kept log s) (hstack : s.stack = top :: below)
    (hseen : top.boundarySeen = false) : Mark.Untouched log top.id top.pc := by
  have htop : top ∈ s.stack := hstack ▸ List.mem_cons_self
  constructor
  · intro unit armed hooked hm
    obtain ⟨-, hplace⟩ := h.allowed top htop _ hm rfl
    rw [hseen] at hplace
    rcases hplace with hlt | ⟨-, hover⟩
    · exact Nat.lt_irrefl _ hlt
    · cases hover
  · intro hm
    have hplace := h.allowed top htop _ hm rfl
    rw [hseen] at hplace
    rcases hplace with hlt | ⟨-, hover⟩
    · exact Nat.lt_irrefl _ hlt
    · cases hover

/-- The program starts with an empty stack. -/
theorem start (h : Kept log s) (hstarted : s.started = false) : s.stack = [] := by
  obtain ⟨hstack, -⟩ := h.sound.unstarted hstarted
  exact List.map_eq_nil_iff.1 hstack

/-- The frame of the module, or of a deferred call, is new. -/
theorem pushIdle (h : Kept log s) (s' : State) (hstack : s'.stack = [])
    (hnext : s'.nextFrame = s.nextFrame) (unit : UnitId) (args : List Value)
    (callee : Option String) (hsound : (s'.push unit args callee).control.Sound) :
    Kept (log ++ []) (s'.push unit args callee) := by
  obtain ⟨hle, hfresh⟩ := State.push_idle hstack unit args callee
  rw [hnext] at hle hfresh
  refine h.silent hsound hle (fun a ha => Or.inr (hfresh a ha).1) fun top below htop => ?_
  exact (hfresh top (htop ▸ List.mem_cons_self)).2

/-- A frame leaves the stack, and its caller goes on behind the call. -/
theorem leave (h : Kept log s) (hstack : s.stack = top :: below)
    (hsound : s.pop.control.Sound) : Kept (log ++ []) s.pop := by
  have hnested := h.sound.nested top.control (below.map Activation.control) (control_stack hstack)
  have hpop : s.pop.stack = State.resumeCaller below := by
    rw [State.pop, hstack, List.tail_cons]
  refine h.silent hsound (Nat.le_refl _) ?_ ?_
  · intro a ha
    rw [hpop] at ha
    have hbelow : ∀ b ∈ below, b ∈ s.stack := fun b hb => hstack ▸ List.mem_cons_of_mem top hb
    cases below with
    | nil => cases ha
    | cons caller rest =>
        rw [State.resumeCaller] at ha
        split at ha
        · rcases List.mem_cons.1 ha with rfl | ha
          · refine Or.inl ⟨caller, hbelow caller List.mem_cons_self, ?_⟩
            exact ⟨rfl, rfl, id, id, Or.inl (Nat.lt_succ_self _)⟩
          · exact Or.inl ⟨a, hbelow a (List.mem_cons_of_mem caller ha), .refl a⟩
        · exact Or.inl ⟨a, hbelow a ha, .refl a⟩
  · intro first rest hfirst
    rw [hpop] at hfirst
    cases below with
    | nil => cases hfirst
    | cons caller rest' =>
        have hwaits : caller.awaitingReturn = true :=
          (hnested.waiting (f := caller.control) List.mem_cons_self).1
        rw [State.resumeCaller, if_pos hwaits] at hfirst
        obtain ⟨rfl, -⟩ := List.cons.inj hfirst
        rfl

/-- The mark of the boundary, and the stop for it. -/
theorem consider (h : Kept log s) (hstack : s.stack = top :: below)
    (hseen : top.boundarySeen = false) (armed hooked : Bool)
    (hsound :
      ({ s with stack := { top with boundarySeen := true } :: below } : State).control.Sound) :
    Kept
      (log ++ .considered top.id top.unit top.pc armed hooked ::
        Mark.stops top.id top.pc armed hooked)
      { s with stack := { top with boundarySeen := true } :: below } := by
  have hbefore := h.untouched hstack hseen
  refine h.onTop hsound hstack { top with boundarySeen := true } rfl rfl ?_ _ ?_ ?_ ?_ ?_
  · exact ⟨rfl, rfl, fun hs => hs, fun hs => hs, Or.inr ⟨rfl, fun _ => rfl, fun hs => hs⟩⟩
  · intro m hm
    rcases List.mem_cons.1 hm with rfl | hm
    · rfl
    · rcases Mark.mem_stops hm with rfl | rfl <;> rfl
  · intro m hm
    rcases List.mem_cons.1 hm with rfl | hm
    · exact fun _ => ⟨rfl, Or.inr ⟨rfl, rfl⟩⟩
    · rcases Mark.mem_stops hm with rfl | rfl
      · exact fun _ => Or.inr ⟨rfl, rfl⟩
      · trivial
  · exact fun _ => ⟨log, armed, hooked, rfl, hbefore⟩
  · intro before m after hsplit
    cases before with
    | nil =>
        obtain ⟨rfl, -⟩ := List.cons.inj hsplit
        rw [List.append_nil]
        exact hbefore
    | cons first before =>
        obtain ⟨rfl, hstops⟩ := List.cons.inj hsplit
        unfold Mark.stops at hstops
        cases armed with
        | true =>
            obtain ⟨rfl, rfl⟩ := singleton_eq_append_cons hstops
            exact ⟨log, top.unit, hooked, rfl, hbefore⟩
        | false =>
            cases hooked with
            | true =>
                obtain ⟨rfl, rfl⟩ := singleton_eq_append_cons hstops
                exact ⟨log, top.unit, top.pc, rfl, hbefore⟩
            | false => cases before <;> cases hstops

/-- A call puts a new frame above the running one, which waits. -/
theorem onCall (h : Kept log s) (hsound : t.control.Sound) (hstack : s.stack = top :: below)
    {fresh : Activation} (htop : t.stack = fresh :: { top with awaitingReturn := true } :: below)
    (hnext : t.nextFrame = s.nextFrame + 1) (hid : fresh.id = ⟨s.nextFrame⟩)
    (hnew : fresh.boundarySeen = false)
    (hplace : Mark.InPlace log (.executed ⟨top.id, top.unit, top.pc⟩)) :
    Kept (log ++ [.executed ⟨top.id, top.unit, top.pc⟩]) t := by
  have hnumber := h.number_top hstack
  have hcalling : top.Later { top with awaitingReturn := true } :=
    ⟨rfl, rfl, fun hs => hs, fun hs => hs, Or.inr ⟨rfl, fun hs => hs, fun _ => rfl⟩⟩
  refine h.extend hsound _ (by omega) ?_ ?_ ?_ ?_ ?_
  · intro m hm frame hframe
    obtain rfl := List.mem_singleton.1 hm
    rw [← Option.some.inj hframe]
    exact hnumber
  · intro a ha
    rw [htop] at ha
    rcases List.mem_cons.1 ha with rfl | ha
    · exact Or.inr hid
    rcases List.mem_cons.1 ha with rfl | ha
    · exact Or.inl ⟨top, hstack ▸ List.mem_cons_self, hcalling⟩
    · exact Or.inl ⟨a, hstack ▸ List.mem_cons_of_mem top ha, .refl a⟩
  · intro a ha m hm
    obtain rfl := List.mem_singleton.1 hm
    rw [htop] at ha
    rcases List.mem_cons.1 ha with rfl | ha
    · refine Mark.allows_of_frame_ne fun hframe => ?_
      have heq : top.id = a.id := Option.some.inj hframe
      rw [heq, hid] at hnumber
      exact Nat.lt_irrefl _ hnumber
    rcases List.mem_cons.1 ha with rfl | ha
    · exact fun _ => ⟨rfl, Or.inr ⟨rfl, rfl⟩⟩
    · exact Mark.allows_of_frame_ne fun hframe => h.ne_top hstack a ha (Option.some.inj hframe).symm
  · intro first rest hfirst hover
    rw [htop] at hfirst
    obtain ⟨rfl, -⟩ := List.cons.inj hfirst
    rw [hnew] at hover
    cases hover
  · intro before m after hsplit
    obtain ⟨rfl, rfl⟩ := singleton_eq_append_cons hsplit
    rw [List.append_nil]
    exact hplace

/-- An instruction is executed where its boundary was considered last. -/
theorem execute (h : Kept log s) (hstack : s.stack = top :: below) {i : Instruction}
    (hinstr : s.program.instruction? top.unit top.pc = some i) (hseen : top.boundarySeen = true)
    (hsound : (s.perform top below i.op).control.Sound) :
    Kept (log ++ [.executed ⟨top.id, top.unit, top.pc⟩]) (s.perform top below i.op) := by
  have hplace : Mark.InPlace log (.executed ⟨top.id, top.unit, top.pc⟩) :=
    h.last top below hstack hseen
  rcases State.perform_cases below hinstr with
    ⟨top', htop, hnext, hlater, hlt, hnew⟩ | ⟨fresh, htop, hnext, hid, hnew⟩
  · refine h.onTop hsound hstack top' htop hnext hlater _ ?_ ?_ ?_ ?_
    · intro m hm
      obtain rfl := List.mem_singleton.1 hm
      rfl
    · intro m hm
      obtain rfl := List.mem_singleton.1 hm
      exact fun _ => ⟨hlater.unit.symm, Or.inl hlt⟩
    · intro hover
      rw [hnew] at hover
      cases hover
    · intro before m after hsplit
      obtain ⟨rfl, rfl⟩ := singleton_eq_append_cons hsplit
      rw [List.append_nil]
      exact hplace
  · exact h.onCall hsound hstack htop hnext hid hnew hplace

end Kept

/-- The shape of the stack stays under any hooks. -/
theorem State.Step.sound {hooks : Hooks} {s t : State} {event : Option Event}
    (h : State.Step hooks s t event) (hsound : s.control.Sound) : t.control.Sound := by
  rcases h.control_eq with ⟨hsame, -⟩ | htick
  · rw [hsame]
    exact hsound
  · rw [htick]
    exact hsound.tick

/-- The event at a boundary is the stop for it. -/
theorem map_boundaryEvent (hooks : Hooks) (s : State) (top : Activation) :
    (s.boundaryEvent hooks top).toList.map Mark.reported =
      Mark.stops top.id top.pc (s.hasBreakpoint top.unit top.pc)
        (hooks.action top.id == some .step) := by
  unfold State.boundaryEvent Mark.stops
  split
  · rfl
  · simp only [beq_iff_eq]
    split <;> rfl

namespace Kept

variable {log : List Mark} {s t : State} {top : Activation} {below : List Activation}

/-- A report on the running frame, which no mark made before. -/
theorem report (h : Kept log s) (hstack : s.stack = top :: below) (top' : Activation)
    (hlater : top.Later top') (hseen : top'.boundarySeen = false) (reports : List Mark)
    (hframes : ∀ m ∈ reports, m.frame? = some top.id) (hallowed : ∀ m ∈ reports, m.Allows top')
    (hplace : ∀ m ∈ reports, m.InPlace log) (hlength : reports.length ≤ 1)
    (hsound : ({ s with stack := top' :: below } : State).control.Sound) :
    Kept (log ++ reports) { s with stack := top' :: below } := by
  refine h.onTop hsound hstack top' rfl rfl hlater reports hframes hallowed ?_ ?_
  · intro hover
    rw [hseen] at hover
    cases hover
  · intro before m after hsplit
    obtain rfl : before = [] := by
      have hlength' := congrArg List.length hsplit
      simp at hlength'
      exact List.eq_nil_of_length_eq_zero (by omega)
    rw [List.append_nil]
    exact hplace m (hsplit ▸ List.mem_cons_self)

/-- The end of the program is no mark on a frame. -/
theorem finish (h : Kept log s) (hstack : s.stack = []) :
    Kept (log ++ [.reported .finished]) s := by
  refine h.extend h.sound _ (Nat.le_refl _) ?_ ?_ ?_ ?_ ?_
  · intro m hm frame hframe
    obtain rfl := List.mem_singleton.1 hm
    cases hframe
  · simp [hstack]
  · simp [hstack]
  · simp [hstack]
  · intro before m after hsplit
    obtain ⟨rfl, rfl⟩ := singleton_eq_append_cons hsplit
    trivial

/-- The entry of a frame is reported at most once. -/
theorem enter (h : Kept log s) (hstack : s.stack = top :: below) (hentered : top.entered = false)
    (waited : Bool)
    (hsound : ({ s with stack := { top with entered := true } :: below } : State).control.Sound) :
    Kept
      (log ++ (if waited then some (Event.enterFrame top.id) else none).toList.map Mark.reported)
      { s with stack := { top with entered := true } :: below } := by
  have htop : top ∈ s.stack := hstack ▸ List.mem_cons_self
  obtain ⟨-, hseen⟩ := (h.live_top hstack).fresh hentered
  have hnew : .reported (.enterFrame top.id) ∉ log := by
    intro hm
    rw [h.allowed top htop _ hm rfl] at hentered
    cases hentered
  refine h.report hstack { top with entered := true } ?_ hseen _ ?_ ?_ ?_ ?_ hsound
  · exact ⟨rfl, rfl, fun _ => rfl, fun hs => hs, Or.inr ⟨rfl, fun hs => hs, fun hs => hs⟩⟩
  · cases waited <;> simp [Mark.frame?]
  · cases waited <;> simp [Mark.Allows]
  · cases waited
    · simp
    · simpa [Mark.InPlace] using hnew
  · cases waited <;> simp

/-- The end of a frame is reported at most once. -/
theorem popReport (h : Kept log s) (hstack : s.stack = top :: below)
    (hend : s.program.instruction? top.unit top.pc = none) (hreported : top.popReported = false)
    (hsound :
      ({ s with stack := { top with popReported := true } :: below } : State).control.Sound) :
    Kept (log ++ [.reported (.pop top.id)])
      { s with stack := { top with popReported := true } :: below } := by
  have htop : top ∈ s.stack := hstack ▸ List.mem_cons_self
  have hnew : .reported (.pop top.id) ∉ log := by
    intro hm
    rw [h.allowed top htop _ hm rfl] at hreported
    cases hreported
  have hseen : top.boundarySeen = false := by
    refine Bool.eq_false_iff.2 fun hover => ?_
    obtain ⟨i, hinstr⟩ := (h.live_top hstack).seen hover
    cases hinstr.symm.trans hend
  refine h.report hstack { top with popReported := true } ?_ hseen _ ?_ ?_ ?_ ?_ hsound
  · exact ⟨rfl, rfl, fun hs => hs, fun _ => rfl, Or.inr ⟨rfl, fun hs => hs, fun hs => hs⟩⟩
  · simp [Mark.frame?]
  · simp [Mark.Allows]
  · simpa [Mark.InPlace] using hnew
  · simp

end Kept

namespace State

variable {s : State} {top : Activation} {below : List Activation}

/-- Nothing is considered or executed without a frame, -/
theorem quiet_of_nil (hooks : Hooks) (hstack : s.stack = []) :
    s.consideration? hooks = none ∧ s.execution? = none := by
  simp [consideration?, execution?, hstack]

/-- before the entry of a frame is over, -/
theorem quiet_of_entry (hooks : Hooks) (hstack : s.stack = top :: below)
    (hentered : top.entered = false) : s.consideration? hooks = none ∧ s.execution? = none := by
  simp [consideration?, execution?, hstack, hentered]

/-- or at the end of a frame. -/
theorem quiet_of_end (hooks : Hooks) (hstack : s.stack = top :: below)
    (hend : s.program.instruction? top.unit top.pc = none) :
    s.consideration? hooks = none ∧ s.execution? = none := by
  simp [consideration?, execution?, hstack, hend]

end State

namespace Kept

variable {log : List Mark} {s : State}

/-- A small step keeps the log and the stack in agreement. -/
theorem advance (h : Kept log s) (hooks : Hooks) :
    Kept (log ++ s.marks hooks) (s.advance hooks).1 := by
  have hstep := State.step_advance hooks s
  have hsound := hstep.sound h.sound
  unfold State.marks
  generalize State.advance hooks s = result at hstep hsound
  obtain ⟨t, event⟩ := result
  simp only at hstep hsound ⊢
  cases hstep with
  | start hstarted =>
      have hstack := h.start hstarted
      obtain ⟨hconsideration, hexecution⟩ := State.quiet_of_nil hooks hstack
      rw [hconsideration, hexecution]
      exact h.pushIdle { s with started := true } hstack rfl _ _ _ hsound
  | finish hstarted hstack hdeferred =>
      obtain ⟨hconsideration, hexecution⟩ := State.quiet_of_nil hooks hstack
      rw [hconsideration, hexecution]
      exact h.finish hstack
  | @unqueue call rest hstarted hstack hdeferred =>
      obtain ⟨hconsideration, hexecution⟩ := State.quiet_of_nil hooks hstack
      rw [hconsideration, hexecution]
      exact h.pushIdle { s with deferred := rest } hstack rfl _ _ _ hsound
  | @enter top below hstarted hstack hentered =>
      obtain ⟨hconsideration, hexecution⟩ := State.quiet_of_entry hooks hstack hentered
      rw [hconsideration, hexecution]
      exact h.enter hstack hentered hooks.onEnter hsound
  | @report top below hstarted hstack hentered hend hreported hhook =>
      obtain ⟨hconsideration, hexecution⟩ := State.quiet_of_end hooks hstack hend
      rw [hconsideration, hexecution]
      exact h.popReport hstack hend hreported hsound
  | @leave top below hstarted hstack hentered hend =>
      obtain ⟨hconsideration, hexecution⟩ := State.quiet_of_end hooks hstack hend
      rw [hconsideration, hexecution]
      exact h.leave hstack hsound
  | @consider top below i hstarted hstack hentered hinstr hseen =>
      have hexecution : s.execution? = none := by simp [State.execution?, hstack, hseen]
      have hconsideration : s.consideration? hooks =
          some
            (.considered top.id top.unit top.pc (s.hasBreakpoint top.unit top.pc)
              (hooks.action top.id == some .step)) := by
        simp [State.consideration?, hstack, hstarted, hentered, hseen, hinstr]
      rw [hexecution, hconsideration, map_boundaryEvent]
      exact h.consider hstack hseen _ _ hsound
  | @execute top below i hstarted hstack hentered hinstr hseen =>
      have hexecution : s.execution? = some ⟨top.id, top.unit, top.pc⟩ := by
        simp [State.execution?, hstack, hstarted, hentered, hseen, hinstr]
      have hconsideration : s.consideration? hooks = none := by
        simp [State.consideration?, hstack, hseen]
      rw [hexecution, hconsideration]
      exact h.execute hstack hinstr hseen hsound

end Kept

/-! ## Sessions -/

/-- The log says nothing about breakpoints. -/
theorem Kept.of_stack_eq {log : List Mark} {s t : State} (h : Kept log s)
    (hcontrol : t.control = s.control) (hstack : t.stack = s.stack) : Kept log t := by
  have hnext : t.nextFrame = s.nextFrame := congrArg Control.nextFrame hcontrol
  refine ⟨?_, ?_, ?_, ?_, h.inPlace⟩
  · rw [hcontrol]
    exact h.sound
  · rw [hnext]
    exact h.numbered
  · rw [hstack]
    exact h.allowed
  · rw [hstack]
    exact h.last

/-- Before the start, nothing was marked. -/
theorem kept_initial (library : String → Option String) (program : Program) :
    Kept [] (State.initial library program) where
  sound := sound_initial library program
  numbered _ hm := absurd hm List.not_mem_nil
  allowed _ ha := absurd ha List.not_mem_nil
  last _ _ hstack := absurd hstack (by simp [State.initial])
  inPlace before m after h := by simp at h

theorem Session.kept {library : String → Option String} {program : Program} {log : List Mark}
    {s : State} (h : Session (State.initial library program) log s) : Kept log s := by
  induction h with
  | start => exact kept_initial library program
  | advance hooks h ih => exact ih.advance hooks
  | @setBreakpoint log s unit offset h ih =>
      by_cases hset : s.hasBreakpoint unit offset = true
      · have hsame : Engine.setBreakpoint s unit offset = s := if_pos hset
        rwa [hsame]
      · have hnew : Engine.setBreakpoint s unit offset =
            { s with breakpoints := (unit, offset) :: s.breakpoints } := if_neg hset
        rw [hnew]
        exact ih.of_stack_eq rfl rfl
  | clearBreakpoint unit offset h ih => exact ih.of_stack_eq rfl rfl

/-- What an event says about the state in which the run stops: it names the running frame, and a
breakpoint or a step names it at an instruction that was not executed. -/
def Event.Names (log : List Mark) (t : State) : Event → Prop
  | .breakpoint frame offset =>
    ∃ top below i, t.stack = top :: below ∧ top.id = frame ∧ top.pc = offset ∧
      t.program.instruction? top.unit offset = some i ∧
      ∀ unit, .executed ⟨frame, unit, offset⟩ ∉ log
  | .step frame =>
    ∃ top below i, t.stack = top :: below ∧ top.id = frame ∧
      t.program.instruction? top.unit top.pc = some i ∧
      ∀ unit, .executed ⟨frame, unit, top.pc⟩ ∉ log
  | .enterFrame frame | .pop frame => ∃ top below, t.stack = top :: below ∧ top.id = frame
  | .finished => t.stack = []

/-- The running frame did not execute what it stands at. -/
theorem Kept.not_executed {log : List Mark} {s : State} (h : Kept log s) (top : Activation)
    {below : List Activation} (hstack : s.stack = top :: below) :
    ∀ unit, .executed ⟨top.id, unit, top.pc⟩ ∉ log := by
  intro unit hm
  have hawaiting : top.awaitingReturn = false :=
    h.sound.running top.control (below.map Activation.control) (control_stack hstack)
  obtain ⟨-, hplace⟩ := h.allowed top (hstack ▸ List.mem_cons_self) _ hm rfl
  rw [hawaiting] at hplace
  rcases hplace with hlt | ⟨-, hover⟩
  · exact Nat.lt_irrefl _ hlt
  · cases hover

/-- A step that stops has marked nothing but the boundary and the stop. -/
theorem State.Step.names {hooks : Hooks} {log : List Mark} {s t : State} {event : Event}
    (h : State.Step hooks s t (some event)) (hkept : Kept log t) : Event.Names log t event := by
  generalize hsome : some event = reported at h
  cases h with
  | finish hstarted hstack hdeferred =>
      obtain rfl := Option.some.inj hsome
      exact hstack
  | enter hstarted hstack hentered =>
      split at hsome
      · obtain rfl := Option.some.inj hsome
        exact ⟨_, _, rfl, rfl⟩
      · cases hsome
  | report hstarted hstack =>
      obtain rfl := Option.some.inj hsome
      exact ⟨_, _, rfl, rfl⟩
  | @consider top below i hstarted hstack hentered hinstr hseen =>
      have hfresh := hkept.not_executed { top with boundarySeen := true } rfl
      unfold State.boundaryEvent at hsome
      split at hsome
      · obtain rfl := Option.some.inj hsome
        exact ⟨_, _, i, rfl, rfl, rfl, hinstr, hfresh⟩
      · split at hsome
        · obtain rfl := Option.some.inj hsome
          exact ⟨_, _, i, rfl, rfl, hinstr, hfresh⟩
        · cases hsome
  | _ => cases hsome

/-- The marks of a step that stops end with the stop, and the others are no stops. -/
theorem marks_eq (hooks : Hooks) (s : State) :
    ∃ quiet : List Mark, (∀ m ∈ quiet, m.isReport = false) ∧
      s.marks hooks = quiet ++ (s.advance hooks).2.toList.map Mark.reported := by
  refine ⟨(s.consideration? hooks).toList ++ s.execution?.toList.map Mark.executed, ?_, rfl⟩
  intro m hm
  rcases List.mem_append.1 hm with hm | hm
  · rw [Option.mem_toList, State.consideration?] at hm
    split at hm
    · cases hm
    · split at hm
      · obtain rfl := Option.some.inj hm
        rfl
      · cases hm
  · obtain ⟨x, -, rfl⟩ := List.mem_map.1 hm
    rfl

/-- To resume is to take small steps up to the first one that stops. -/
theorem Session.resume {s₀ s t : State} {log : List Mark} {hooks : Hooks} {event : Event}
    (h : Session s₀ log s) (hresumes : Engine.Resumes hooks s t event) :
    ∃ quiet before, (∀ m ∈ quiet, m.isReport = false) ∧
      Session s₀ (log ++ (quiet ++ [.reported event])) t ∧
      State.Step hooks before t (some event) := by
  obtain ⟨fuel, hfuel⟩ := hresumes
  induction fuel generalizing log s with
  | zero => cases hfuel
  | succ fuel ih =>
      obtain ⟨quiet, hquiet, hmarks⟩ := marks_eq hooks s
      have hnext := h.advance hooks
      have hadvance : Engine.advance hooks s = s.advance hooks := rfl
      have hstep := State.step_advance hooks s
      rw [Engine.resumeWithin, hadvance] at hfuel
      rw [hmarks] at hnext
      generalize s.advance hooks = result at hfuel hnext hstep
      obtain ⟨next, reported⟩ := result
      cases reported with
      | some reported =>
          obtain ⟨rfl, rfl⟩ : next = t ∧ reported = event := by simpa using hfuel
          exact ⟨quiet, s, hquiet, hnext, hstep⟩
      | none =>
          obtain ⟨more, before, hmore, hsession, hlast⟩ := ih hnext hfuel
          refine ⟨quiet ++ more, before, ?_, ?_, hlast⟩
          · intro m hm
            exact (List.mem_append.1 hm).elim (hquiet m) (hmore m)
          · simpa [List.append_assoc] using hsession

/-- In the log of a session every mark is in its place. Where the run stops next, the log goes on
with that stop and no other, and the event names the running frame at an instruction that was not
executed. -/
theorem session_inPlace {library : String → Option String} {program : Program} {log : List Mark}
    {s : State} (h : Session (State.initial library program) log s) :
    (∀ before m after, log = before ++ m :: after → m.InPlace before) ∧
      ∀ hooks t event, Engine.Resumes hooks s t event →
        ∃ quiet, (∀ m ∈ quiet, m.isReport = false) ∧
          Session (State.initial library program) (log ++ (quiet ++ [.reported event])) t ∧
          Event.Names (log ++ (quiet ++ [.reported event])) t event := by
  refine ⟨h.kept.inPlace, fun hooks t event hresumes => ?_⟩
  obtain ⟨quiet, before, hquiet, hsession, hstep⟩ := h.resume hresumes
  exact ⟨quiet, hquiet, hsession, hstep.names hsession.kept⟩

/-- The marks of some small steps under the same hooks, and the state behind them. -/
private def walk (hooks : Hooks) : (steps : Nat) → State → List Mark × State
  | 0, s => ([], s)
  | steps + 1, s =>
    let (log, t) := walk hooks steps (s.advance hooks).1
    (s.marks hooks ++ log, t)

private theorem Session.walk {s₀ s : State} {log : List Mark} (h : Session s₀ log s)
    (hooks : Hooks) (steps : Nat) :
    Session s₀ (log ++ (Machine.walk hooks steps s).1) (Machine.walk hooks steps s).2 := by
  induction steps generalizing log s with
  | zero =>
      rw [Machine.walk, List.append_nil]
      exact h
  | succ steps ih =>
      have hrest := ih (h.advance hooks)
      rwa [List.append_assoc] at hrest

/-- A session with a breakpoint on the first statement, and another one that is set, together with
a hook, during the call there, on the statement that the call returns to. -/
private def tour (program : Program) : List Mark × State :=
  let first := walk .none 5 (Engine.setBreakpoint (State.initial (fun _ => none) program) ⟨0⟩ 0)
  let second := walk (Hooks.none.install ⟨1⟩ .step) 4 (Engine.setBreakpoint first.2 ⟨0⟩ 1)
  (first.1 ++ second.1, second.2)

private theorem session_tour (program : Program) :
    Session (State.initial (fun _ => none) program) (tour program).1 (tour program).2 := by
  have hstart : Session (State.initial (fun _ => none) program) [] _ := .start
  have hfirst := (hstart.setBreakpoint ⟨0⟩ 0).walk .none 5
  rw [List.nil_append] at hfirst
  exact (hfirst.setBreakpoint ⟨0⟩ 1).walk (Hooks.none.install ⟨1⟩ .step) 4

theorem session_inPlace_breakpoint_behind_call :
    ∃ program log s,
      Program.ofSource "main.mod" "call f\nprint \"b\"\nfunction f\nend\n" = .ok program ∧
      Session (State.initial (fun _ => none) program) log s ∧
      log =
        [.considered ⟨1⟩ ⟨0⟩ 0 true false, .reported (.breakpoint ⟨1⟩ 0), .executed ⟨⟨1⟩, ⟨0⟩, 0⟩,
          .considered ⟨2⟩ ⟨1⟩ 0 false false, .executed ⟨⟨2⟩, ⟨1⟩, 0⟩,
          .considered ⟨1⟩ ⟨0⟩ 1 true true, .reported (.breakpoint ⟨1⟩ 1)] ∧
      ∀ before m after, log = before ++ m :: after → m.InPlace before := by
  have hcomputed :
      ((Program.ofSource "main.mod" "call f\nprint \"b\"\nfunction f\nend\n").toOption.bind
        fun program => some (tour program).1) =
      some
        [.considered ⟨1⟩ ⟨0⟩ 0 true false, .reported (.breakpoint ⟨1⟩ 0),
          .executed ⟨⟨1⟩, ⟨0⟩, 0⟩, .considered ⟨2⟩ ⟨1⟩ 0 false false, .executed ⟨⟨2⟩, ⟨1⟩, 0⟩,
          .considered ⟨1⟩ ⟨0⟩ 1 true true, .reported (.breakpoint ⟨1⟩ 1)] := by cbv
  obtain ⟨program, hsource, htour⟩ := Program.exists_of_ofSource hcomputed
  have hlog := Option.some.inj htour
  have hsession := session_tour program
  exact ⟨program, (tour program).1, (tour program).2, hsource, hsession, hlog,
    (session_inPlace hsession).1⟩

end ScriptDebugger.Machine
