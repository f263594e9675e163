import ScriptDebugger.Proofs.Machine.Control
/-!
# The shape of the stack

Under the running frame, every frame waits at the call of the frame above it, and was numbered
before it. No frame waits for a unit that calls it back: instructions do not branch, so a unit that
is called again by what it calls never returns, and whatever has returned has a finite tree of
calls.

## Main results

* `Sound.tick` — a tick keeps the shape.
* `Live.returns` — a unit whose frame is at its end has a finite tree of calls.
* `Returns.ne_callee` — such a unit does not call itself.
* `Sound.caller_unit_ne` — the caller of a frame that has returned runs another unit.
* `Holds.tick` — until a frame is at its end, what stands under it stays.
-/

namespace ScriptDebugger.Machine

open Source (Instruction)

namespace Program

/-- A function that is found has a unit. -/
theorem unit?_of_lookupFrom {p : Program} {name : String} {depth : Nat} {id callee : UnitId}
    (h : p.lookupFrom name depth id = some callee) : (p.unit? callee).isSome := by
  induction depth generalizing id with
  | zero => cases h
  | succ depth ih =>
      rw [lookupFrom] at h
      split at h
      · cases h
      · split at h
        · rename_i found hfound
          obtain rfl : found = callee := by simpa using h
          have hnamed := List.find?_some hfound
          rw [isFunctionNamed, Option.any_eq_true] at hnamed
          obtain ⟨unit, hunit, -⟩ := hnamed
          exact Option.isSome_iff_exists.2 ⟨unit, hunit⟩
        · split at h
          · exact ih h
          · cases h

theorem unit?_of_lookupFunction {p : Program} {name : String} {id callee : UnitId}
    (h : p.lookupFunction id name = some callee) : (p.unit? callee).isSome :=
  unit?_of_lookupFrom h

theorem instruction?_eq_none_iff {p : Program} {unit : UnitId} {offset : Nat} :
    p.instruction? unit offset = none ↔ p.codeLength unit ≤ offset := by
  unfold instruction? codeLength
  cases p.unit? unit with
  | none => simp
  | some code => simp

theorem lt_codeLength {p : Program} {unit : UnitId} {offset : Nat} {i : Instruction}
    (h : p.instruction? unit offset = some i) : offset < p.codeLength unit := by
  refine Nat.lt_of_not_le fun hle => ?_
  rw [instruction?_eq_none_iff.2 hle] at h
  cases h

/-! ## Who calls whom -/

/-- A unit calls another one with the instruction at an offset. -/
def CallsAt (p : Program) (unit : UnitId) (offset : Nat) (callee : UnitId) : Prop :=
  ∃ i name args, p.instruction? unit offset = some i ∧ i.op = .call name args ∧
    p.lookupFunction unit name = some callee

/-- A unit calls another one before an offset, and before it returns. -/
def CallsBefore (p : Program) (unit : UnitId) (bound : Nat) (callee : UnitId) : Prop :=
  ∃ offset, offset < bound ∧ p.CallsAt unit offset callee ∧
    ∀ earlier i, earlier < offset → p.instruction? unit earlier = some i → i.op ≠ .ret

/-- A unit whose tree of calls is finite. -/
def Returns (p : Program) (unit : UnitId) : Prop :=
  Acc (fun callee caller => ∃ bound, p.CallsBefore caller bound callee) unit

theorem CallsAt.unique {p : Program} {unit callee callee' : UnitId} {offset : Nat}
    (h : p.CallsAt unit offset callee) (h' : p.CallsAt unit offset callee') : callee = callee' := by
  obtain ⟨i, name, args, hinstr, hop, hcallee⟩ := h
  obtain ⟨i', name', args', hinstr', hop', hcallee'⟩ := h'
  obtain rfl : i = i' := Option.some.inj (hinstr.symm.trans hinstr')
  obtain ⟨rfl, -⟩ : name = name' ∧ args = args' := by simpa [hop] using hop'
  exact Option.some.inj (hcallee.symm.trans hcallee')

/-- A unit with a finite tree of calls does not call itself. -/
theorem Returns.ne_callee {p : Program} {unit : UnitId} (h : p.Returns unit) :
    ∀ bound, ¬p.CallsBefore unit bound unit := by
  induction h with
  | intro unit _ ih =>
      intro bound hself
      exact ih unit ⟨bound, hself⟩ bound hself

end Program

namespace Control

/-! ## The shape -/

/-- A frame that runs as its unit says. What it has called so far has returned, or is under way at
its offset; once it has returned, nothing is left to run. -/
structure Live (p : Program) (f : ControlFrame) : Prop where
  seen : f.boundarySeen = true → ∃ i, p.instruction? f.unit f.pc = some i
  fresh : f.entered = false → f.pc = 0 ∧ f.boundarySeen = false
  straight : ∀ offset i, offset < f.pc → p.instruction? f.unit offset = some i → i.op = .ret →
    p.instruction? f.unit f.pc = none
  returned : ∀ callee, p.CallsBefore f.unit f.pc callee → p.Returns callee

/-- A frame that waits for the frame above it. -/
structure Waits (p : Program) (above caller : ControlFrame) : Prop where
  awaiting : caller.awaitingReturn = true
  entered : caller.entered = true
  seen : caller.boundarySeen = true
  older : caller.id.number < above.id.number
  calls : p.CallsAt caller.unit caller.pc above.unit

/-- Below a frame, each frame waits for the one above it. -/
def Nested (p : Program) : ControlFrame → List ControlFrame → Prop
  | _, [] => True
  | above, caller :: rest => Waits p above caller ∧ Nested p caller rest

/-- A control state as a run makes it. -/
structure Sound (c : Control) : Prop where
  unstarted : c.started = false → c.stack = [] ∧ c.queue = []
  known : ∀ unit ∈ c.queue, (c.program.unit? unit).isSome
  live : ∀ f ∈ c.stack, Live c.program f
  numbered : ∀ f ∈ c.stack, f.id.number < c.nextFrame
  running : ∀ top below, c.stack = top :: below → top.awaitingReturn = false
  nested : ∀ top below, c.stack = top :: below → Nested c.program top below

theorem live_fresh (p : Program) (number : Nat) (unit : UnitId) : Live p (.fresh number unit) where
  seen := nofun
  fresh _ := ⟨rfl, rfl⟩
  straight offset _ hlt := absurd hlt (Nat.not_lt_zero offset)
  returned := by
    rintro callee ⟨offset, hlt, -⟩
    exact absurd hlt (Nat.not_lt_zero offset)

/-- Whom a frame waits for shows in the number and the unit of the frame above. -/
theorem Nested.congr {p : Program} {above above' : ControlFrame} {below : List ControlFrame}
    (h : Nested p above below) (hid : above'.id = above.id) (hunit : above'.unit = above.unit) :
    Nested p above' below := by
  cases below with
  | nil => trivial
  | cons caller rest =>
      obtain ⟨hwaits, hrest⟩ := h
      have hwaits' : Waits p above' caller :=
        ⟨hwaits.awaiting, hwaits.entered, hwaits.seen, hid ▸ hwaits.older, hunit ▸ hwaits.calls⟩
      exact ⟨hwaits', hrest⟩

/-- The frames below are older. -/
theorem Nested.older {p : Program} {above f : ControlFrame} {below : List ControlFrame}
    (h : Nested p above below) (hf : f ∈ below) : f.id.number < above.id.number := by
  induction below generalizing above with
  | nil => cases hf
  | cons caller rest ih =>
      obtain ⟨hwaits, hrest⟩ := h
      have holder := hwaits.older
      rcases List.mem_cons.1 hf with rfl | hf
      · exact holder
      · have := ih hrest hf
        omega

/-- The frames below have been entered, and wait at a boundary that is over. -/
theorem Nested.waiting {p : Program} {above f : ControlFrame} {below : List ControlFrame}
    (h : Nested p above below) (hf : f ∈ below) :
    f.awaitingReturn = true ∧ f.entered = true ∧ f.boundarySeen = true := by
  induction below generalizing above with
  | nil => cases hf
  | cons caller rest ih =>
      obtain ⟨hwaits, hrest⟩ := h
      rcases List.mem_cons.1 hf with rfl | hf
      · exact ⟨hwaits.awaiting, hwaits.entered, hwaits.seen⟩
      · exact ih hrest hf

/-! ## What has returned -/

/-- A unit whose frame is at its end has a finite tree of calls. -/
theorem Live.returns {p : Program} {f : ControlFrame} (h : Live p f)
    (hend : p.instruction? f.unit f.pc = none) : p.Returns f.unit := by
  refine Acc.intro f.unit ?_
  rintro callee ⟨bound, offset, -, hcalls, hstraight⟩
  have hlt : offset < f.pc := by
    obtain ⟨i, -, -, hinstr, -⟩ := hcalls
    have hinside := Program.lt_codeLength hinstr
    have hpast := Program.instruction?_eq_none_iff.1 hend
    omega
  exact h.returned callee ⟨offset, hlt, hcalls, hstraight⟩

/-- Behind an instruction that is no return and calls nothing but what has returned, a frame goes
on. -/
theorem Live.next {p : Program} {f g : ControlFrame} {i : Instruction} (h : Live p f)
    (hinstr : p.instruction? f.unit f.pc = some i)
    (hret : i.op ≠ .ret) (hcalls : ∀ callee, p.CallsAt f.unit f.pc callee → p.Returns callee)
    (hunit : g.unit = f.unit) (hpc : g.pc = f.pc + 1) (hg : g.entered = true)
    (hseen : g.boundarySeen = false) : Live p g where
  seen := by simp [hseen]
  fresh := by simp [hg]
  straight := by
    intro offset j hlt hj hop
    rw [hunit] at hj
    rw [hpc] at hlt
    rcases Nat.lt_succ_iff_lt_or_eq.1 hlt with hlt | rfl
    · rw [h.straight offset j hlt hj hop] at hinstr
      cases hinstr
    · obtain rfl : i = j := Option.some.inj (hinstr.symm.trans hj)
      exact absurd hop hret
  returned := by
    rintro callee ⟨offset, hlt, hcall, hstraight⟩
    rw [hunit] at hcall hstraight
    rw [hpc] at hlt
    rcases Nat.lt_succ_iff_lt_or_eq.1 hlt with hlt | rfl
    · exact h.returned callee ⟨offset, hlt, hcall, hstraight⟩
    · exact hcalls callee hcall

/-- A frame that returns goes to its end. -/
theorem Live.ret {p : Program} {f : ControlFrame} {i : Instruction} (h : Live p f)
    (hentered : f.entered = true) (hinstr : p.instruction? f.unit f.pc = some i)
    (hop : i.op = .ret) :
    Live p { f with pc := p.codeLength f.unit, boundarySeen := false } where
  seen := nofun
  fresh := by simp [hentered]
  straight _ _ _ _ _ := Program.instruction?_eq_none_iff.2 (Nat.le_refl _)
  returned := by
    rintro callee ⟨offset, -, hcall, hstraight⟩
    rcases Nat.lt_trichotomy offset f.pc with hlt | rfl | hlt
    · exact h.returned callee ⟨offset, hlt, hcall, hstraight⟩
    · obtain ⟨j, name, args, hj, hcallop, -⟩ := hcall
      obtain rfl : i = j := Option.some.inj (hinstr.symm.trans hj)
      rw [hop] at hcallop
      cases hcallop
    · exact absurd hop (hstraight f.pc i hlt hinstr)

/-! ## One tick -/

namespace Sound

variable {c : Control} {top : ControlFrame} {below : List ControlFrame}

theorem of_nil (hstarted : c.started = true) (hstack : c.stack = [])
    (hknown : ∀ unit ∈ c.queue, (c.program.unit? unit).isSome) : Sound c := by
  refine ⟨fun hnot => absurd (hstarted.symm.trans hnot) (by decide), hknown, ?_, ?_, ?_, ?_⟩
  all_goals simp [hstack]

theorem of_cons (hstarted : c.started = true) (hstack : c.stack = top :: below)
    (hknown : ∀ unit ∈ c.queue, (c.program.unit? unit).isSome) (hlive : Live c.program top)
    (hbelow : ∀ f ∈ below, Live c.program f) (hnumber : top.id.number < c.nextFrame)
    (hawaiting : top.awaitingReturn = false) (hnested : Nested c.program top below) : Sound c := by
  refine ⟨fun hnot => absurd (hstarted.symm.trans hnot) (by decide), hknown, ?_, ?_, ?_, ?_⟩
  · intro f hf
    rw [hstack] at hf
    rcases List.mem_cons.1 hf with rfl | hf
    · exact hlive
    · exact hbelow f hf
  · intro f hf
    rw [hstack] at hf
    rcases List.mem_cons.1 hf with rfl | hf
    · exact hnumber
    · exact Nat.lt_trans (hnested.older hf) hnumber
  · intro f rest hf
    obtain ⟨rfl, -⟩ := List.cons.inj (hstack.symm.trans hf)
    exact hawaiting
  · intro f rest hf
    obtain ⟨rfl, rfl⟩ := List.cons.inj (hstack.symm.trans hf)
    exact hnested

section

variable (h : Sound c) (hstarted : c.started = true) (hstack : c.stack = top :: below)

include h hstack

theorem live_top : Live c.program top := h.live top (hstack ▸ List.mem_cons_self)

theorem live_below : ∀ f ∈ below, Live c.program f :=
  fun f hf => h.live f (hstack ▸ List.mem_cons_of_mem top hf)

theorem number_top : top.id.number < c.nextFrame := h.numbered top (hstack ▸ List.mem_cons_self)

include hstarted

/-- The running frame may change its place and its flags. -/
theorem retop (top' : ControlFrame) (hid : top'.id = top.id) (hunit : top'.unit = top.unit)
    (hawaiting : top'.awaitingReturn = top.awaitingReturn) (hlive : Live c.program top')
    (queue : List UnitId) (hknown : ∀ unit ∈ queue, (c.program.unit? unit).isSome) :
    Sound { c with queue := queue, stack := top' :: below } :=
  of_cons hstarted rfl hknown hlive (h.live_below hstack) (hid ▸ h.number_top hstack)
    (hawaiting.trans (h.running top below hstack))
    ((h.nested top below hstack).congr hid hunit)

/-- When a frame has left the stack, its caller goes on behind the call. -/
theorem pop (hend : c.program.instruction? top.unit top.pc = none) : Sound c.pop := by
  have hnested := h.nested top below hstack
  have hlive := h.live_below hstack
  have hreturns : c.program.Returns top.unit := (h.live_top hstack).returns hend
  have hnumber := h.number_top hstack
  rw [Control.pop, hstack, List.tail_cons]
  cases below with
  | nil => exact of_nil hstarted rfl h.known
  | cons caller rest =>
      obtain ⟨hwaits, hrest⟩ := hnested
      obtain ⟨i, name, args, hinstr, hop, -⟩ := hwaits.calls
      rw [resumeCaller, if_pos hwaits.awaiting]
      refine of_cons hstarted rfl h.known ?_ ?_ ?_ rfl (hrest.congr rfl rfl)
      · refine (hlive caller List.mem_cons_self).next hinstr (by simp [hop]) ?_ rfl rfl
          hwaits.entered rfl
        intro callee hcallee
        rwa [hcallee.unique hwaits.calls]
      · exact fun f hf => hlive f (List.mem_cons_of_mem caller hf)
      · exact Nat.lt_trans hwaits.older hnumber

end

/-- A new frame above frames that wait for it. -/
theorem push {unit : UnitId} (hstarted : c.started = true)
    (hunit : (c.program.unit? unit).isSome)
    (hknown : ∀ unit ∈ c.queue, (c.program.unit? unit).isSome)
    (hlive : ∀ f ∈ c.stack, Live c.program f)
    (hnested : Nested c.program (.fresh c.nextFrame unit) c.stack) : Sound (c.push unit) := by
  rw [push_of_unit hunit]
  exact of_cons hstarted rfl hknown (live_fresh _ _ _) hlive (Nat.lt_succ_self _) rfl hnested

/-- A frame for a unit on an empty stack. -/
theorem pushIdle {unit : UnitId} (hstarted : c.started = true) (hstack : c.stack = [])
    (hknown : ∀ unit ∈ c.queue, (c.program.unit? unit).isSome) : Sound (c.push unit) := by
  by_cases hunit : (c.program.unit? unit).isSome
  · refine push hstarted hunit hknown ?_ ?_
    · simp [hstack]
    · rw [hstack]
      trivial
  · rw [Control.push, if_neg hunit]
    exact of_nil hstarted hstack hknown

/-- A tick keeps the shape. -/
theorem tick (h : Sound c) : Sound c.tick := by
  have hstep := step_tick c
  generalize c.tick = d at hstep
  cases hstep with
  | start hstarted =>
      obtain ⟨hstack, hqueue⟩ := h.unstarted hstarted
      refine pushIdle rfl hstack ?_
      simp [hqueue]
  | finish => exact h
  | unqueue hstarted hstack hqueue =>
      refine pushIdle hstarted hstack fun unit hunit => h.known unit ?_
      rw [hqueue]
      exact List.mem_cons_of_mem _ hunit
  | @enter top below hstarted hstack hentered =>
      have hlive := h.live_top hstack
      exact h.retop hstarted hstack { top with entered := true } rfl rfl rfl
        ⟨hlive.seen, nofun, hlive.straight, hlive.returned⟩ c.queue h.known
  | leave hstarted hstack hentered hend => exact h.pop hstarted hstack hend
  | @consider top below i hstarted hstack hentered hinstr hseen =>
      have hlive := h.live_top hstack
      have hfresh : top.entered = false → top.pc = 0 ∧ true = false := by simp [hentered]
      exact h.retop hstarted hstack { top with boundarySeen := true } rfl rfl rfl
        ⟨fun _ => ⟨i, hinstr⟩, hfresh, hlive.straight, hlive.returned⟩ c.queue h.known
  | @call top below i name args callee hstarted hstack hentered hinstr hseen hop hcallee =>
      have hlive := h.live_top hstack
      refine push hstarted (Program.unit?_of_lookupFunction hcallee) h.known ?_ ?_
      · intro f hf
        rcases List.mem_cons.1 hf with rfl | hf
        · exact ⟨hlive.seen, hlive.fresh, hlive.straight, hlive.returned⟩
        · exact h.live_below hstack f hf
      · have hnumber : top.id.number < c.nextFrame := h.number_top hstack
        have hwaits : Waits c.program (.fresh c.nextFrame callee)
            { top with awaitingReturn := true } :=
          ⟨rfl, hentered, hseen, hnumber, i, name, args, hinstr, hop, hcallee⟩
        exact ⟨hwaits, (h.nested top below hstack).congr rfl rfl⟩
  | @ret top below i hstarted hstack hentered hinstr hseen hop =>
      have hlive := (h.live_top hstack).ret hentered hinstr hop
      exact h.retop hstarted hstack
        { top with pc := c.program.codeLength top.unit, boundarySeen := false } rfl rfl rfl hlive
        c.queue h.known
  | @pass top below i units hstarted hstack hentered hinstr hseen hret hcall hunits =>
      refine h.retop hstarted hstack top.next rfl rfl rfl ?_ (c.queue ++ units) ?_
      · refine (h.live_top hstack).next hinstr hret ?_ rfl rfl hentered rfl
        rintro callee ⟨j, name, args, hj, hop, hcallee⟩
        obtain rfl : i = j := Option.some.inj (hinstr.symm.trans hj)
        rw [hcall name args hop] at hcallee
        cases hcallee
      · intro unit hunit
        rcases List.mem_append.1 hunit with hunit | hunit
        · exact h.known unit hunit
        · obtain ⟨name, hname⟩ := hunits unit hunit
          exact Program.unit?_of_lookupFunction hname

theorem after (h : Sound c) (n : Nat) : Sound (c.after n) := by
  induction n with
  | zero => exact h
  | succ n ih => exact ih.tick

end Sound

/-- The caller of a frame that has returned runs another unit. -/
theorem Sound.caller_unit_ne {c : Control} (h : Sound c) {top caller : ControlFrame}
    {rest : List ControlFrame} (hstack : c.stack = top :: caller :: rest)
    (hend : c.program.instruction? top.unit top.pc = none) : caller.unit ≠ top.unit := by
  intro hsame
  obtain ⟨hwaits, -⟩ := h.nested top (caller :: rest) hstack
  have hreturns := (h.live_top hstack).returns hend
  have hcaller := h.live_below hstack caller List.mem_cons_self
  refine hreturns.ne_callee (caller.pc + 1)
    ⟨caller.pc, Nat.lt_succ_self _, hsame ▸ hwaits.calls, ?_⟩
  intro earlier i hlt hinstr hop
  rw [← hsame] at hinstr
  obtain ⟨j, name, args, hj, -⟩ := hwaits.calls
  cases (hcaller.straight earlier i hlt hinstr hop).symm.trans hj

/-! ## What stands under a frame -/

/-- A frame is on the stack, above the frames `below`. -/
def Holds (frame : FrameId) (unit : UnitId) (below : List ControlFrame) (c : Control) : Prop :=
  ∃ upper f, c.stack = upper ++ f :: below ∧ f.id = frame ∧ f.unit = unit

/-- A frame runs and is at its end. -/
def AtEnd (c : Control) (frame : FrameId) : Prop :=
  ∃ top below, c.stack = top :: below ∧ top.id = frame ∧ top.entered = true ∧
    c.program.instruction? top.unit top.pc = none

/-- Whether a frame runs and is at its end. -/
def atEnd (c : Control) (frame : FrameId) : Bool :=
  c.stack.head?.any fun top =>
    top.id == frame && top.entered && (c.program.instruction? top.unit top.pc).isNone

theorem atEnd_iff {c : Control} {frame : FrameId} : c.atEnd frame = true ↔ c.AtEnd frame := by
  simp [atEnd, AtEnd, List.head?_eq_some_iff, Option.any_eq_true, and_assoc]

instance (c : Control) (frame : FrameId) : Decidable (AtEnd c frame) :=
  decidable_of_iff _ atEnd_iff

theorem resumeCaller_cons (f : ControlFrame) (rest : List ControlFrame) :
    ∃ g, resumeCaller (f :: rest) = g :: rest ∧ g.id = f.id ∧ g.unit = f.unit := by
  rw [resumeCaller]
  split
  · exact ⟨_, rfl, rfl, rfl⟩
  · exact ⟨f, rfl, rfl, rfl⟩

namespace Holds

variable {c d : Control} {frame : FrameId} {unit : UnitId} {below : List ControlFrame}

theorem stack_ne_nil (h : Holds frame unit below c) : c.stack ≠ [] := by
  obtain ⟨upper, f, hstack, -⟩ := h
  rw [hstack]
  simp

/-- The running frame may change, and others may stand above it. -/
theorem retop (h : Holds frame unit below c) {top : ControlFrame} {rest : List ControlFrame}
    (hstack : c.stack = top :: rest) (above : List ControlFrame) (top' : ControlFrame)
    (hid : top'.id = top.id) (hunit : top'.unit = top.unit)
    (hd : d.stack = above ++ top' :: rest) : Holds frame unit below d := by
  obtain ⟨upper, f, hsplit, hframe, hcode⟩ := h
  rw [hstack] at hsplit
  cases upper with
  | nil =>
      obtain ⟨rfl, rfl⟩ := List.cons.inj hsplit
      exact ⟨above, top', hd, hid.trans hframe, hunit.trans hcode⟩
  | cons first upper =>
      obtain ⟨rfl, rfl⟩ := List.cons.inj hsplit
      refine ⟨above ++ top' :: upper, f, ?_, hframe, hcode⟩
      rw [hd, List.append_assoc]
      rfl

/-- A frame above it leaves the stack. -/
theorem pop (h : Holds frame unit below c) {top : ControlFrame} {rest : List ControlFrame}
    (hstack : c.stack = top :: rest) (hother : top.id ≠ frame) : Holds frame unit below c.pop := by
  obtain ⟨upper, f, hsplit, hframe, hcode⟩ := h
  rw [hstack] at hsplit
  have hpop : c.pop.stack = resumeCaller rest := by rw [Control.pop, hstack, List.tail_cons]
  cases upper with
  | nil =>
      obtain ⟨rfl, -⟩ := List.cons.inj hsplit
      exact absurd hframe hother
  | cons first upper =>
      obtain ⟨rfl, rfl⟩ := List.cons.inj hsplit
      cases upper with
      | nil =>
          obtain ⟨g, hg, hid, hunit⟩ := resumeCaller_cons f below
          exact ⟨[], g, hpop.trans hg, hid.trans hframe, hunit.trans hcode⟩
      | cons second upper =>
          obtain ⟨g, hg, -⟩ := resumeCaller_cons second (upper ++ f :: below)
          exact ⟨g :: upper, f, hpop.trans hg, hframe, hcode⟩

/-- Until it is at its end, what stands under a frame stays. -/
theorem tick (h : Holds frame unit below c) (hstarted : c.started = true)
    (hstay : ¬AtEnd c frame) : Holds frame unit below c.tick := by
  have hstep := step_tick c
  generalize c.tick = d at hstep
  cases hstep with
  | start hnot => cases hstarted.symm.trans hnot
  | finish => exact h
  | unqueue _ hstack => exact absurd hstack h.stack_ne_nil
  | @enter top rest _ hstack =>
      exact h.retop hstack [] { top with entered := true } rfl rfl rfl
  | @leave top rest _ hstack hentered hend =>
      exact h.pop hstack fun hid => hstay ⟨top, rest, hstack, hid, hentered, hend⟩
  | @consider top rest i _ hstack =>
      exact h.retop hstack [] { top with boundarySeen := true } rfl rfl rfl
  | @call top rest i name args callee _ hstack hentered hinstr hseen hop hcallee =>
      have hpush := push_of_unit
        (c := { c with stack := { top with awaitingReturn := true } :: rest })
        (Program.unit?_of_lookupFunction hcallee)
      rw [hpush]
      exact h.retop hstack [.fresh c.nextFrame callee] { top with awaitingReturn := true } rfl rfl
        rfl
  | @ret top rest i _ hstack =>
      exact h.retop hstack []
        { top with pc := c.program.codeLength top.unit, boundarySeen := false } rfl rfl rfl
  | @pass top rest i units _ hstack =>
      exact h.retop hstack [] top.next rfl rfl rfl

/-- A frame that runs has nothing above it. -/
theorem of_top (h : Holds frame unit below c) (hsound : Sound c) {top : ControlFrame}
    {rest : List ControlFrame} (hstack : c.stack = top :: rest) (hid : top.id = frame) :
    rest = below ∧ top.unit = unit := by
  obtain ⟨upper, f, hsplit, hframe, hcode⟩ := h
  rw [hstack] at hsplit
  cases upper with
  | nil =>
      obtain ⟨rfl, rfl⟩ := List.cons.inj hsplit
      exact ⟨rfl, hcode⟩
  | cons first upper =>
      obtain ⟨rfl, rfl⟩ := List.cons.inj hsplit
      have holder := (hsound.nested _ _ hstack).older
        (List.mem_append_right upper List.mem_cons_self)
      rw [hframe, hid] at holder
      exact absurd holder (Nat.lt_irrefl _)

end Holds

end Control

/-- Without frames and without calls that wait, there is nothing to be out of shape. -/
theorem Control.sound_of_empty {c : Control} (hstack : c.stack = []) (hqueue : c.queue = []) :
    c.Sound := by
  obtain ⟨program, stack, queue, nextFrame, started⟩ := c
  obtain rfl : stack = [] := hstack
  obtain rfl : queue = [] := hqueue
  exact ⟨fun _ => ⟨rfl, rfl⟩, nofun, nofun, nofun, nofun, nofun⟩

/-- Before the start there are no frames. -/
theorem sound_initial (library : String → Option String) (program : Program) :
    Control.Sound (State.initial library program).control := Control.sound_of_empty rfl rfl

end ScriptDebugger.Machine
