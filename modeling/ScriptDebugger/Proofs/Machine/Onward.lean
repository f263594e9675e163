import ScriptDebugger.Proofs.Machine.StackShape
/-!
# Frames go onward

No instruction leads a frame back. A tick leaves each frame at its place or takes it to a later one,
and what it adds to the stack is a new frame. A frame that executes an instruction leaves its place
for good: it goes on behind the instruction, or it waits there for a call and is not the running
frame before the call has returned.

## Main results

* `follows_tick` — the frames of a tick are those before it, gone onward, and new ones.
* `unit?_after` — every frame runs a unit that exists.
* `Passed.tick` — what a frame has executed stays behind it.
-/

namespace ScriptDebugger.Machine

open Source (Instruction)

namespace Control

/-- A frame is another one at the same or at a later place. -/
structure Onward (f g : ControlFrame) : Prop where
  id : g.id = f.id
  unit : g.unit = f.unit
  place : f.pc < g.pc ∨ g.pc = f.pc ∧ (f.awaitingReturn = true → g.awaitingReturn = true)

theorem Onward.refl (f : ControlFrame) : Onward f f := ⟨rfl, rfl, Or.inr ⟨rfl, fun h => h⟩⟩

/-- A frame is new, for a unit that exists, or it was on the stack before and has gone onward. -/
def Follows (c : Control) (g : ControlFrame) : Prop :=
  (∃ unit, (c.program.unit? unit).isSome ∧ g = .fresh c.nextFrame unit) ∨
    ∃ f ∈ c.stack, Onward f g

/-- Each frame that stands under the running one stays, or its call has returned. -/
theorem follows_resumeCaller {c : Control} {top : ControlFrame} {below : List ControlFrame}
    (hstack : c.stack = top :: below) : ∀ g ∈ resumeCaller below, Follows c g := by
  have hbelow : ∀ f ∈ below, f ∈ c.stack := fun f hf => hstack ▸ List.mem_cons_of_mem top hf
  intro g hg
  cases below with
  | nil => cases hg
  | cons caller rest =>
      rw [resumeCaller] at hg
      split at hg
      · rcases List.mem_cons.1 hg with rfl | hg
        · refine Or.inr ⟨caller, hbelow caller List.mem_cons_self, rfl, rfl, Or.inl ?_⟩
          exact Nat.lt_succ_self caller.pc
        · exact Or.inr ⟨g, hbelow g (List.mem_cons_of_mem caller hg), .refl g⟩
      · exact Or.inr ⟨g, hbelow g hg, .refl g⟩

/-- The frames that a tick leaves follow those before it. -/
theorem follows_tick {c : Control} (hsound : c.Sound) :
    c.nextFrame ≤ c.tick.nextFrame ∧ ∀ g ∈ c.tick.stack, Follows c g := by
  -- The running frame is replaced, and nothing below it changes.
  have retop : ∀ {top : ControlFrame} {below : List ControlFrame}, c.stack = top :: below →
      ∀ top', Onward top top' → ∀ g ∈ top' :: below, Follows c g := by
    intro top below hstack top' honward g hg
    rcases List.mem_cons.1 hg with rfl | hg
    · exact Or.inr ⟨top, hstack ▸ List.mem_cons_self, honward⟩
    · exact Or.inr ⟨g, hstack ▸ List.mem_cons_of_mem top hg, .refl g⟩
  -- A frame is put on the stack.
  have push : ∀ (d : Control) (unit : UnitId), d.program = c.program → d.nextFrame = c.nextFrame →
      (∀ g ∈ d.stack, Follows c g) →
      c.nextFrame ≤ (d.push unit).nextFrame ∧ ∀ g ∈ (d.push unit).stack, Follows c g := by
    intro d unit hprogram hnext hd
    by_cases hunit : (d.program.unit? unit).isSome
    · rw [push_of_unit hunit]
      refine ⟨hnext ▸ Nat.le_succ _, fun g hg => ?_⟩
      rcases List.mem_cons.1 hg with rfl | hg
      · exact Or.inl ⟨unit, hprogram ▸ hunit, by rw [hnext]⟩
      · exact hd g hg
    · rw [push, if_neg hunit]
      exact ⟨Nat.le_of_eq hnext.symm, hd⟩
  have hstep := step_tick c
  generalize c.tick = d at hstep
  cases hstep with
  | start hstarted =>
      refine push { c with started := true } ⟨0⟩ rfl rfl fun g hg => ?_
      have hnil : c.stack = [] := (hsound.unstarted hstarted).1
      change g ∈ c.stack at hg
      rw [hnil] at hg
      cases hg
  | finish => exact ⟨Nat.le_refl _, fun g hg => Or.inr ⟨g, hg, .refl g⟩⟩
  | @unqueue unit rest _ hstack =>
      refine push { c with queue := rest } unit rfl rfl fun g hg => ?_
      change g ∈ c.stack at hg
      rw [hstack] at hg
      cases hg
  | @enter top below _ hstack =>
      refine ⟨Nat.le_refl _, retop hstack { top with entered := true } ?_⟩
      exact ⟨rfl, rfl, Or.inr ⟨rfl, id⟩⟩
  | @leave top below _ hstack =>
      refine ⟨Nat.le_refl _, ?_⟩
      rw [pop, hstack]
      exact follows_resumeCaller hstack
  | @consider top below i _ hstack =>
      refine ⟨Nat.le_refl _, retop hstack { top with boundarySeen := true } ?_⟩
      exact ⟨rfl, rfl, Or.inr ⟨rfl, id⟩⟩
  | @call top below i name args callee _ hstack =>
      refine push { c with stack := { top with awaitingReturn := true } :: below } callee rfl rfl ?_
      exact retop hstack { top with awaitingReturn := true } ⟨rfl, rfl, Or.inr ⟨rfl, fun _ => rfl⟩⟩
  | @ret top below i _ hstack _ hinstr =>
      refine ⟨Nat.le_refl _, retop hstack
        { top with pc := c.program.codeLength top.unit, boundarySeen := false } ?_⟩
      exact ⟨rfl, rfl, Or.inl (Program.lt_codeLength hinstr)⟩
  | @pass top below i units _ hstack =>
      refine ⟨Nat.le_refl _, retop hstack top.next ?_⟩
      exact ⟨rfl, rfl, Or.inl (Nat.lt_succ_self top.pc)⟩

/-- Every frame runs a unit that exists. -/
theorem unit?_after (p : Program) (n : Nat) :
    ∀ f ∈ ((initial p).after n).stack, (p.unit? f.unit).isSome := by
  induction n with
  | zero =>
      intro f hf
      cases hf
  | succ n ih =>
      intro g hg
      rcases (follows_tick ((sound_initial (fun _ => none) p).after n)).2 g hg with
        ⟨unit, hunit, rfl⟩ | ⟨f, hf, honward⟩
      · rw [after_program] at hunit
        exact hunit
      · rw [honward.unit]
        exact ih f hf

/-- A frame has executed the instruction at an offset: it stands at a later one, or waits there. -/
structure Passed (frame : FrameId) (offset : Nat) (c : Control) : Prop where
  old : frame.number < c.nextFrame
  place : ∀ f ∈ c.stack, f.id = frame → offset < f.pc ∨ f.pc = offset ∧ f.awaitingReturn = true

namespace Passed

variable {frame : FrameId} {offset : Nat} {c : Control}

/-- What a frame has executed stays behind it. -/
theorem tick (h : Passed frame offset c) (hsound : c.Sound) : Passed frame offset c.tick := by
  obtain ⟨hnext, hfollows⟩ := follows_tick hsound
  refine ⟨Nat.lt_of_lt_of_le h.old hnext, fun g hg hid => ?_⟩
  rcases hfollows g hg with ⟨unit, -, rfl⟩ | ⟨f, hf, honward⟩
  · rw [← hid] at h
    exact absurd h.old (Nat.lt_irrefl _)
  · rcases h.place f hf (honward.id.symm.trans hid) with hlt | ⟨hpc, hwaits⟩
    · rcases honward.place with hmoved | ⟨hsame, -⟩
      · exact Or.inl (Nat.lt_trans hlt hmoved)
      · exact Or.inl (by omega)
    · rcases honward.place with hmoved | ⟨hsame, hstill⟩
      · exact Or.inl (by omega)
      · exact Or.inr ⟨by omega, hstill hwaits⟩

/-- A frame that has executed an instruction and runs stands behind it. -/
theorem lt_running (h : Passed frame offset c) (hsound : c.Sound) {top : ControlFrame}
    {below : List ControlFrame} (hstack : c.stack = top :: below) (hid : top.id = frame) :
    offset < top.pc := by
  rcases h.place top (hstack ▸ List.mem_cons_self) hid with hlt | ⟨-, hwaits⟩
  · exact hlt
  · cases (hsound.running top below hstack).symm.trans hwaits

/-- The tick that executes an instruction leaves it behind the frame. -/
theorem of_execute (hsound : c.Sound) {top : ControlFrame} {below : List ControlFrame}
    {i : Instruction} (hstarted : c.started = true) (hstack : c.stack = top :: below)
    (hentered : top.entered = true) (hinstr : c.program.instruction? top.unit top.pc = some i)
    (hseen : top.boundarySeen = true) : Passed top.id top.pc c.tick := by
  obtain ⟨hnext, -⟩ := follows_tick hsound
  refine ⟨Nat.lt_of_lt_of_le (hsound.number_top hstack) hnext, fun g hg hid => ?_⟩
  have hbelow : g ∉ below := fun hmem => by
    have holder := (hsound.nested top below hstack).older hmem
    rw [hid] at holder
    exact Nat.lt_irrefl _ holder
  have hstep := step_perform hstarted hstack hentered hinstr hseen
  rw [← tick_execute hstarted hstack hentered hinstr hseen] at hstep
  generalize c.tick = d at hstep hg
  -- The rules that execute nothing contradict what is known of the running frame.
  cases hstep with
  | start hnot => cases hstarted.symm.trans hnot
  | finish _ hnil => cases hnil.symm.trans hstack
  | unqueue _ hnil => cases hnil.symm.trans hstack
  | enter _ hcons hnot =>
      obtain ⟨rfl, -⟩ := List.cons.inj (hstack.symm.trans hcons)
      cases hentered.symm.trans hnot
  | leave _ hcons _ hend =>
      obtain ⟨rfl, -⟩ := List.cons.inj (hstack.symm.trans hcons)
      cases hinstr.symm.trans hend
  | consider _ hcons _ _ hnot =>
      obtain ⟨rfl, -⟩ := List.cons.inj (hstack.symm.trans hcons)
      cases hseen.symm.trans hnot
  | @call top' below' _ name args callee _ hcons _ _ _ _ hcallee =>
      obtain ⟨rfl, rfl⟩ := List.cons.inj (hstack.symm.trans hcons)
      rw [push_of_unit (c := { c with stack := { top with awaitingReturn := true } :: below })
        (Program.unit?_of_lookupFunction hcallee)] at hg
      rcases List.mem_cons.1 hg with rfl | hg
      · have hnumber := hsound.number_top hstack
        rw [← hid] at hnumber
        exact absurd hnumber (Nat.lt_irrefl _)
      rcases List.mem_cons.1 hg with rfl | hg
      · exact Or.inr ⟨rfl, rfl⟩
      · exact absurd hg hbelow
  | ret _ hcons _ _ _ _ =>
      obtain ⟨rfl, rfl⟩ := List.cons.inj (hstack.symm.trans hcons)
      rcases List.mem_cons.1 hg with rfl | hg
      · exact Or.inl (Program.lt_codeLength hinstr)
      · exact absurd hg hbelow
  | pass units _ hcons _ _ _ _ _ _ =>
      obtain ⟨rfl, rfl⟩ := List.cons.inj (hstack.symm.trans hcons)
      rcases List.mem_cons.1 hg with rfl | hg
      · exact Or.inl (Nat.lt_succ_self top.pc)
      · exact absurd hg hbelow

end Passed

end Control

end ScriptDebugger.Machine
