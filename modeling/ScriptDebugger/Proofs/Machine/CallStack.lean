import ScriptDebugger.Proofs.Machine.Onward
/-!
# The call stack, step by step

What one step does to the frames of the stack and to the calls that wait for it to empty: a frame
that has left does not come back under its number, a frame goes no further than the end of its code,
and at the bottom of the stack is the frame of the module or the one of a deferred call.

## Main results

* `Control.Gone.tick` — a number that no frame has any more is not given out again.
* `Control.Nested.waits` — anywhere in the stack, a frame waits for the one above it.
* `Control.InCode.tick` — no frame goes past the end of its code.
* `State.Step.deferred` — a call that waits was deferred by an instruction.
* `State.Step.outermost` — where the frame at the bottom of the stack comes from.
-/

namespace ScriptDebugger.Machine

open Source (Instruction Op)

/-! ## Numbers and places -/

namespace Control

/-- A number was given to a frame, and no frame on the stack has it. -/
structure Gone (frame : FrameId) (c : Control) : Prop where
  old : frame.number < c.nextFrame
  absent : ∀ f ∈ c.stack, f.id ≠ frame

/-- A number that no frame has any more is not given out again. -/
theorem Gone.tick {frame : FrameId} {c : Control} (h : Gone frame c) (hsound : c.Sound) :
    Gone frame c.tick := by
  have hold := h.old
  obtain ⟨hnext, hfollows⟩ := follows_tick hsound
  constructor
  · omega
  · intro g hg hid
    rcases hfollows g hg with ⟨unit, -, hfresh⟩ | ⟨f, hf, honward⟩
    · have hnumber : g.id.number = c.nextFrame := by
        rw [hfresh]
        rfl
      rw [hid] at hnumber
      omega
    · apply h.absent f hf
      rw [← honward.id, hid]

/-- No frame stands past the end of its code. -/
def InCode (c : Control) : Prop := ∀ f ∈ c.stack, f.pc ≤ c.program.codeLength f.unit

namespace InCode

variable {c : Control}

/-- The running frame may change, as long as it stays in its code. -/
theorem retop (h : InCode c) {top : ControlFrame} {below : List ControlFrame}
    (hstack : c.stack = top :: below) (top' : ControlFrame)
    (htop : top'.pc ≤ c.program.codeLength top'.unit) :
    ∀ f ∈ top' :: below, f.pc ≤ c.program.codeLength f.unit := by
  intro f hf
  rcases List.mem_cons.1 hf with rfl | hf
  · exact htop
  · apply h f
    rw [hstack]
    exact List.mem_cons_of_mem top hf

/-- A new frame stands at the start of its code. -/
theorem push (h : InCode c) (unit : UnitId) : InCode (c.push unit) := by
  unfold Control.push
  split
  · intro f hf
    rcases List.mem_cons.1 hf with rfl | hf
    · exact Nat.zero_le _
    · exact h f hf
  · exact h

/-- Behind a call, the caller is still in its code. -/
theorem pop (h : InCode c) (hsound : c.Sound) {top : ControlFrame} {below : List ControlFrame}
    (hstack : c.stack = top :: below) : InCode c.pop := by
  have hbelow : ∀ f ∈ below, f.pc ≤ c.program.codeLength f.unit := by
    intro f hf
    apply h f
    rw [hstack]
    exact List.mem_cons_of_mem top hf
  have hnested := hsound.nested top below hstack
  show ∀ f ∈ resumeCaller c.stack.tail, f.pc ≤ c.program.codeLength f.unit
  rw [hstack, List.tail_cons]
  intro f hf
  cases below with
  | nil => cases hf
  | cons caller rest =>
      obtain ⟨hwaits, -⟩ := hnested
      obtain ⟨i, name, args, hinstr, -⟩ := hwaits.calls
      have hcall := Program.lt_codeLength hinstr
      rw [resumeCaller, if_pos hwaits.awaiting] at hf
      rcases List.mem_cons.1 hf with rfl | hf
      · show caller.pc + 1 ≤ c.program.codeLength caller.unit
        omega
      · exact hbelow f (List.mem_cons_of_mem caller hf)

/-- No frame goes past the end of its code. -/
theorem tick (h : InCode c) (hsound : c.Sound) : InCode c.tick := by
  have hstep := step_tick c
  generalize c.tick = d at hstep
  have htop : ∀ top below, c.stack = top :: below → top.pc ≤ c.program.codeLength top.unit := by
    intro top below hstack
    apply h top
    rw [hstack]
    exact List.mem_cons_self
  cases hstep with
  | start => exact push (c := { c with started := true }) h ⟨0⟩
  | finish => exact h
  | @unqueue unit rest => exact push (c := { c with queue := rest }) h unit
  | @enter top below _ hstack =>
      exact h.retop hstack { top with entered := true } (htop top below hstack)
  | leave _ hstack => exact h.pop hsound hstack
  | @consider top below i _ hstack =>
      exact h.retop hstack { top with boundarySeen := true } (htop top below hstack)
  | @call top below i name args callee _ hstack =>
      apply push (c := { c with stack := { top with awaitingReturn := true } :: below })
      exact h.retop hstack { top with awaitingReturn := true } (htop top below hstack)
  | @ret top below i _ hstack =>
      exact h.retop hstack
        { top with pc := c.program.codeLength top.unit, boundarySeen := false } (Nat.le_refl _)
  | @pass top below i units _ hstack _ hinstr =>
      have hinside := Program.lt_codeLength hinstr
      apply h.retop hstack top.next
      show top.pc + 1 ≤ c.program.codeLength top.unit
      omega

end InCode

/-- Anywhere in the stack, a frame waits for the one above it. -/
theorem Nested.waits {p : Program} {newer : List ControlFrame} {top above caller : ControlFrame}
    {below older : List ControlFrame} (h : Nested p top below)
    (hstack : top :: below = newer ++ above :: caller :: older) : Waits p above caller := by
  induction newer generalizing top below with
  | nil =>
      obtain ⟨rfl, rfl⟩ := List.cons.inj hstack
      exact h.1
  | cons first rest ih =>
      obtain ⟨-, hrest⟩ := List.cons.inj hstack
      cases below with
      | nil => simp at hrest
      | cons next below => exact ih h.2 hrest

end Control

/-! ## Deferred calls -/

/-- An instruction of the program defers the call, of the function that its name means there. -/
def Program.Defers (p : Program) (call : DeferredCall) : Prop :=
  ∃ unit offset i args, p.instruction? unit offset = some i ∧ i.op = .defer call.name args ∧
    p.lookupFunction unit call.name = some call.unit

namespace State

theorem push_deferred (s : State) (unit : UnitId) (args : List Value) (callee : Option String) :
    (s.push unit args callee).deferred = s.deferred := by
  unfold push
  split <;> rfl

/-- What an instruction adds to the calls that wait, it defers. -/
theorem perform_deferred {s : State} {top : Activation} {i : Instruction} (below : List Activation)
    (hinstr : s.program.instruction? top.unit top.pc = some i) :
    ∀ call ∈ (s.perform top below i.op).deferred, call ∈ s.deferred ∨ s.program.Defers call := by
  intro call hcall
  cases hop : i.op with
  | defer name args =>
      rw [hop, perform] at hcall
      cases hcallee : s.program.lookupFunction top.unit name with
      | none =>
          rw [hcallee] at hcall
          exact Or.inl hcall
      | some callee =>
          rw [hcallee] at hcall
          rcases List.mem_append.1 hcall with hcall | hcall
          · exact Or.inl hcall
          · obtain rfl := List.mem_singleton.1 hcall
            exact Or.inr ⟨top.unit, top.pc, i, args, hinstr, hop, hcallee⟩
  | call name args =>
      rw [hop, perform] at hcall
      split at hcall
      · rw [push_deferred] at hcall
        exact Or.inl hcall
      · exact Or.inl hcall
  | _ =>
      rw [hop] at hcall
      exact Or.inl hcall

/-- A call that waits behind a step waited before, or an instruction defers it. -/
theorem Step.deferred {hooks : Hooks} {s t : State} {event : Option Event}
    (h : Step hooks s t event) :
    ∀ call ∈ t.deferred, call ∈ s.deferred ∨ s.program.Defers call := by
  intro call hcall
  cases h with
  | start =>
      rw [State.start, push_deferred] at hcall
      exact Or.inl hcall
  | unqueue _ _ hdeferred =>
      rw [push_deferred] at hcall
      apply Or.inl
      rw [hdeferred]
      exact List.mem_cons_of_mem _ hcall
  | execute _ _ _ hinstr => exact perform_deferred _ hinstr call hcall
  | _ => exact Or.inl hcall

end State

/-! ## The outermost frame -/

/-- A frame at two times. -/
structure Activation.Same (a b : Activation) : Prop where
  id : b.id = a.id
  unit : b.unit = a.unit
  callee : b.callee = a.callee

theorem Activation.Same.refl (a : Activation) : a.Same a := ⟨rfl, rfl, rfl⟩

/-- If the running frame changes, the frame at the bottom is still the same. -/
theorem Activation.Same.getLast? {top top' b : Activation} (h : top.Same top')
    {below : List Activation} (hb : (top' :: below).getLast? = some b) :
    ∃ a, (top :: below).getLast? = some a ∧ a.Same b := by
  cases below with
  | nil =>
      obtain rfl : top' = b := by simpa using hb
      exact ⟨top, rfl, h⟩
  | cons next rest =>
      rw [List.getLast?_cons_cons] at hb
      refine ⟨b, ?_, .refl b⟩
      rw [List.getLast?_cons_cons]
      exact hb

namespace State

variable {s : State} {b : Activation}

/-- What the frame at the bottom of a stack was started for. -/
inductive Roots (s : State) (b : Activation) : Prop
  /-- The program starts. -/
  | module (hstarted : s.started = false) (hid : b.id = ⟨s.nextFrame⟩) (hunit : b.unit = ⟨0⟩)
    (hcallee : b.callee = none)
  /-- The stack is empty, and the oldest call that waits is for the unit of the frame. -/
  | deferred {call : DeferredCall} {rest : List DeferredCall} (hstack : s.stack = [])
    (hdeferred : s.deferred = call :: rest) (hid : b.id = ⟨s.nextFrame⟩)
    (hunit : b.unit = call.unit) (hcallee : b.callee = some call.name)

/-- The only frame of a stack that was empty is the new one. -/
theorem getLast?_push (hstack : s.stack = []) {unit : UnitId} {args : List Value}
    {callee : Option String} (hb : (s.push unit args callee).stack.getLast? = some b) :
    b.id = ⟨s.nextFrame⟩ ∧ b.unit = unit ∧ b.callee = callee := by
  unfold push at hb
  split at hb
  · rw [hstack] at hb
    cases hb
  · simp only [hstack, List.getLast?_singleton, Option.some.injEq] at hb
    rw [← hb]
    exact ⟨rfl, rfl, rfl⟩

/-- A new frame above others is not at the bottom. -/
theorem getLast?_push_cons {top : Activation} {below : List Activation}
    (hstack : s.stack = top :: below) (unit : UnitId) (args : List Value)
    (callee : Option String) :
    (s.push unit args callee).stack.getLast? = (top :: below).getLast? := by
  unfold push
  split
  · rw [hstack]
  · simp only [hstack, List.getLast?_cons_cons]

/-- Below the frame that leaves, the frame at the bottom is still the same. -/
theorem getLast?_resumeCaller {below : List Activation} (top : Activation)
    (hb : (resumeCaller below).getLast? = some b) :
    ∃ a, (top :: below).getLast? = some a ∧ a.Same b := by
  cases below with
  | nil => cases hb
  | cons caller rest =>
      rw [List.getLast?_cons_cons]
      rw [resumeCaller] at hb
      split at hb
      · apply Activation.Same.getLast? _ hb
        exact ⟨rfl, rfl, rfl⟩
      · exact ⟨b, hb, .refl b⟩

/-- An instruction leaves the frame at the bottom where it is. -/
theorem getLast?_perform {top : Activation} {below : List Activation} (op : Op)
    (hb : (s.perform top below op).stack.getLast? = some b) :
    ∃ a, (top :: below).getLast? = some a ∧ a.Same b := by
  have retop : ∀ top', top.Same top' → (top' :: below).getLast? = some b →
      ∃ a, (top :: below).getLast? = some a ∧ a.Same b := by
    intro top' hsame hlast
    exact hsame.getLast? hlast
  cases op with
  | call name args =>
      rw [perform] at hb
      split at hb
      · rw [getLast?_push_cons rfl] at hb
        exact retop { top with awaitingReturn := true } ⟨rfl, rfl, rfl⟩ hb
      · exact retop top.next ⟨rfl, rfl, rfl⟩ hb
  | defer name args =>
      rw [perform] at hb
      split at hb
      · exact retop top.next ⟨rfl, rfl, rfl⟩ hb
      · exact retop top.next ⟨rfl, rfl, rfl⟩ hb
  | load | store | print | ret =>
      rw [perform] at hb
      apply retop _ _ hb
      exact ⟨rfl, rfl, rfl⟩

/-- The frame at the bottom was there before a step, or the step started it for the module or for a
call that waited. -/
theorem Step.outermost {hooks : Hooks} {t : State} {event : Option Event}
    (h : Step hooks s t event) (hsound : s.control.Sound) (hb : t.stack.getLast? = some b) :
    (∃ a, s.stack.getLast? = some a ∧ a.Same b) ∨ s.Roots b := by
  cases h with
  | start hstarted =>
      have hnil : s.stack = [] := by
        have hstack := (hsound.unstarted hstarted).1
        exact List.map_eq_nil_iff.1 hstack
      obtain ⟨hid, hunit, hcallee⟩ := getLast?_push (s := { s with started := true }) hnil hb
      exact Or.inr (.module hstarted hid hunit hcallee)
  | @unqueue call rest _ hstack hdeferred =>
      obtain ⟨hid, hunit, hcallee⟩ := getLast?_push (s := { s with deferred := rest }) hstack hb
      exact Or.inr (.deferred hstack hdeferred hid hunit hcallee)
  | finish => exact Or.inl ⟨b, hb, .refl b⟩
  | @leave top below _ hstack =>
      apply Or.inl
      rw [pop, hstack] at hb
      rw [hstack]
      exact getLast?_resumeCaller top hb
  | @execute top below i _ hstack =>
      apply Or.inl
      rw [hstack]
      exact getLast?_perform i.op hb
  | @enter top below _ hstack | @report top below _ hstack | @consider top below i _ hstack =>
      apply Or.inl
      rw [hstack]
      apply Activation.Same.getLast? _ hb
      exact ⟨rfl, rfl, rfl⟩

end State

end ScriptDebugger.Machine
