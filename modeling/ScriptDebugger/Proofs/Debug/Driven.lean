import ScriptDebugger.Proofs.Debug.Assigning
import ScriptDebugger.Proofs.Machine.CallStack
/-!
# Driving a machine

Whoever holds a machine may have it take small steps under any hooks, set and clear breakpoints at
any places, and assign to variables through a debugger in any state. These are the drives. A machine
that is driven from the start of a program gets to all of its states, those between two resumes and
those in the middle of one.

To the flow of control only the small steps matter, so the call stack has its shape after any
drives.

## Main results

* `drive_of_resumes` — a resume is a sequence of small steps under the same hooks.
* `control_act` — a drive is a tick of control, or none.
* `frame?_drive_of_gone` — a number that has left the stack never resolves again.
* `drive_callStack` — the shape of the call stack after any drives.
-/

namespace ScriptDebugger.Debug

open Machine (Activation Control DeferredCall Program State)
open Context (CallerChain)

/-! ## Drives -/

/-- One thing that is done to a machine. -/
inductive Drive
  /-- The machine takes a small step under hooks. -/
  | advance (hooks : Hooks)
  /-- A breakpoint is set. -/
  | setBreakpoint (unit : UnitId) (offset : Nat)
  /-- A breakpoint is cleared. -/
  | clearBreakpoint (unit : UnitId) (offset : Nat)
  /-- A debugger assigns to a variable. -/
  | setVariable (c : Context) (reference : Nat) (name : String) (value : Json)

/-- The machine after a drive. -/
def Drive.act (s : State) : Drive → State
  | .advance hooks => (Engine.advance hooks s).1
  | .setBreakpoint unit offset => Engine.setBreakpoint s unit offset
  | .clearBreakpoint unit offset => Engine.clearBreakpoint s unit offset
  | .setVariable c reference name value => (c.setVariable s reference name value).1

/-- The machine after some drives, one after the other. -/
def drive (s : State) : List Drive → State
  | [] => s
  | d :: rest => drive (d.act s) rest

theorem drive_append (s : State) (front back : List Drive) :
    drive s (front ++ back) = drive (drive s front) back := by
  induction front generalizing s with
  | nil => rfl
  | cons d rest ih => exact ih (d.act s)

/-- A resume is a sequence of small steps under the same hooks. -/
theorem drive_of_resumes {hooks : Hooks} {s t : State} {event : Event}
    (h : Engine.Resumes hooks s t event) :
    ∃ steps, drive s (List.replicate steps (.advance hooks)) = t := by
  obtain ⟨fuel, hfuel⟩ := h
  induction fuel generalizing s with
  | zero => cases hfuel
  | succ fuel ih =>
      rw [Engine.resumeWithin] at hfuel
      cases hadvance : Engine.advance hooks s with
      | mk next reported =>
          rw [hadvance] at hfuel
          have hact : Drive.act s (.advance hooks) = next := congrArg Prod.fst hadvance
          cases reported with
          | some reported =>
              obtain ⟨rfl, -⟩ : next = t ∧ reported = event := by simpa using hfuel
              exact ⟨1, hact⟩
          | none =>
              obtain ⟨steps, hsteps⟩ := ih hfuel
              refine ⟨steps + 1, ?_⟩
              rw [List.replicate_succ, drive, hact, hsteps]

/-! ## The flow of control -/

/-- Breakpoints are no part of control. -/
theorem control_setBreakpoint (s : State) (unit : UnitId) (offset : Nat) :
    (Engine.setBreakpoint s unit offset).control = s.control := by
  obtain ⟨places, hplaces⟩ := State.setBreakpoint_eq s unit offset
  rw [hplaces]
  rfl

/-- A drive is a tick of control, or none. -/
theorem control_act (s : State) (d : Drive) :
    (d.act s).control = s.control ∨ (d.act s).control = s.control.tick := by
  cases d with
  | advance hooks =>
      rcases (State.step_advance hooks s).control_eq with ⟨hsame, -⟩ | htick
      · exact Or.inl hsame
      · exact Or.inr htick
  | setBreakpoint unit offset => exact Or.inl (control_setBreakpoint s unit offset)
  | clearBreakpoint unit offset => exact Or.inl rfl
  | setVariable c reference name value =>
      exact Or.inl (touched_setVariable c s reference name value).control

/-- What holds of the control of a machine and survives ticks holds after any drives. -/
theorem control_drive {P : Control → Prop} (htick : ∀ c : Control, c.Sound → P c → P c.tick)
    {s : State} (hsound : s.control.Sound) (h : P s.control) (ds : List Drive) :
    (drive s ds).control.Sound ∧ P (drive s ds).control := by
  induction ds generalizing s with
  | nil => exact ⟨hsound, h⟩
  | cons d rest ih =>
      apply ih
      · rcases control_act s d with hsame | hnext
        · rw [hsame]
          exact hsound
        · rw [hnext]
          exact hsound.tick
      · rcases control_act s d with hsame | hnext
        · rw [hsame]
          exact h
        · rw [hnext]
          exact htick s.control hsound h

theorem sound_drive {s : State} (hsound : s.control.Sound) (ds : List Drive) :
    (drive s ds).control.Sound :=
  (control_drive (P := fun _ => True) (fun _ _ _ => trivial) hsound trivial ds).1

theorem program_drive {s : State} (hsound : s.control.Sound) (ds : List Drive) :
    (drive s ds).program = s.program := by
  have htick : ∀ c : Control, c.Sound → c.program = s.program → c.tick.program = s.program := by
    intro c _ h
    rw [(Control.step_tick c).program_eq, h]
  exact (control_drive htick hsound rfl ds).2

/-! ## Numbers -/

/-- A number resolves if a frame on the stack has it. -/
theorem frame?_eq_none_iff (s : State) (frame : FrameId) :
    Engine.frame? s frame = none ↔ ∀ a ∈ s.stack, a.id ≠ frame := by
  show State.frameInfo? s.program frame s.stack = none ↔ _
  induction s.stack with
  | nil => simp [State.frameInfo?]
  | cons a below ih =>
      rw [State.frameInfo?]
      by_cases hid : a.id = frame
      · simp [hid]
      · simp [hid, ih]

/-- A number that was given out and does not resolve never resolves again. -/
theorem frame?_drive_of_gone {s : State} (hsound : s.control.Sound) {frame : FrameId}
    (hold : frame.number < s.nextFrame) (hnone : Engine.frame? s frame = none) (ds : List Drive) :
    Engine.frame? (drive s ds) frame = none := by
  have hgone : s.control.Gone frame := by
    refine ⟨hold, ?_⟩
    intro f hf
    obtain ⟨a, ha, rfl⟩ := List.mem_map.1 hf
    exact (frame?_eq_none_iff s frame).1 hnone a ha
  have hlater := (control_drive (fun c hc h => h.tick hc) hsound hgone ds).2
  rw [frame?_eq_none_iff]
  intro a ha
  exact hlater.absent a.control (List.mem_map_of_mem ha)

/-- Numbers that were given out stay below the next one. -/
theorem nextFrame_drive {s : State} (hsound : s.control.Sound) (ds : List Drive) :
    s.nextFrame ≤ (drive s ds).nextFrame := by
  have htick : ∀ c : Control, c.Sound → s.nextFrame ≤ c.nextFrame →
      s.nextFrame ≤ c.tick.nextFrame := by
    intro c hc h
    have hnext := (Control.follows_tick hc).1
    omega
  exact (control_drive htick hsound (Nat.le_refl _) ds).2

/-- What resolves has a number that was given out. -/
theorem lt_nextFrame {s : State} (hsound : s.control.Sound) {frame : FrameId}
    (hframe : (Engine.frame? s frame).isSome) : frame.number < s.nextFrame := by
  by_contra hnot
  have hnone : Engine.frame? s frame = none := by
    rw [frame?_eq_none_iff]
    intro a ha hid
    have hnumber := hsound.numbered a.control (List.mem_map_of_mem ha)
    apply hnot
    rw [← hid]
    exact hnumber
  rw [hnone] at hframe
  cases hframe

/-! ## The outermost frame -/

/-- An assignment to a variable leaves the calls that wait, and changes the bindings of one frame or
of none. -/
theorem stack_setVariable (c : Context) (s : State) (reference : Nat) (name : String)
    (value : Json) :
    (c.setVariable s reference name value).1.deferred = s.deferred ∧
      ((c.setVariable s reference name value).1.stack = s.stack ∨
        ∃ index frame a bindings, c.target reference = .ok (.frame index) ∧
          c.findFrame s index = .ok frame ∧ s.activation? frame = some a ∧
          Machine.update? name (importedValue s value) a.bindings = some bindings ∧
          (c.setVariable s reference name value).1.stack =
            s.stack.map fun b => if b.id = frame then { b with bindings } else b) := by
  cases hset : c.setVariable s reference name value with
  | mk t result =>
      have hsets := sets_of_eq hset
      show t.deferred = s.deferred ∧ (t.stack = s.stack ∨ _)
      cases hsets with
      | property _ _ ht =>
          rw [ht]
          exact ⟨rfl, Or.inl rfl⟩
      | @binding index frame a bindings htarget hframe ha hbindings _ ht =>
          rw [ht]
          exact ⟨rfl, Or.inr ⟨index, frame, a, bindings, htarget, hframe, ha, hbindings, rfl⟩⟩
      | _ => exact ⟨rfl, Or.inl rfl⟩

/-- A call that waits behind a drive waited before, or an instruction defers it. -/
theorem deferred_act (s : State) (d : Drive) :
    ∀ call ∈ (d.act s).deferred, call ∈ s.deferred ∨ s.program.Defers call := by
  intro call hcall
  cases d with
  | advance hooks => exact (State.step_advance hooks s).deferred call hcall
  | setBreakpoint unit offset =>
      obtain ⟨places, hplaces⟩ := State.setBreakpoint_eq s unit offset
      change call ∈ (Engine.setBreakpoint s unit offset).deferred at hcall
      rw [hplaces] at hcall
      exact Or.inl hcall
  | clearBreakpoint unit offset => exact Or.inl hcall
  | setVariable c reference name value =>
      apply Or.inl
      rw [← (stack_setVariable c s reference name value).1]
      exact hcall

/-- Every call that waits, an instruction defers. -/
theorem defers_of_mem {s : State} (hsound : s.control.Sound)
    (hnone : s.deferred = []) (ds : List Drive) :
    ∀ call ∈ (drive s ds).deferred, s.program.Defers call := by
  induction ds using List.reverseRecOn with
  | nil =>
      intro call hcall
      rw [drive, hnone] at hcall
      cases hcall
  | append_singleton ds d ih =>
      intro call hcall
      rw [drive_append] at hcall
      rcases deferred_act (drive s ds) d call hcall with hold | hnew
      · exact ih call hold
      · rw [program_drive hsound] at hnew
        exact hnew

/-- The frame at the bottom was there before a drive, or a small step started it. -/
theorem outermost_act {s : State} (hsound : s.control.Sound) (d : Drive) {b : Activation}
    (hb : (d.act s).stack.getLast? = some b) :
    (∃ a, s.stack.getLast? = some a ∧ a.Same b) ∨ s.Roots b := by
  cases d with
  | advance hooks => exact (State.step_advance hooks s).outermost hsound hb
  | setBreakpoint unit offset =>
      obtain ⟨places, hplaces⟩ := State.setBreakpoint_eq s unit offset
      change (Engine.setBreakpoint s unit offset).stack.getLast? = some b at hb
      rw [hplaces] at hb
      exact Or.inl ⟨b, hb, .refl b⟩
  | clearBreakpoint unit offset => exact Or.inl ⟨b, hb, .refl b⟩
  | setVariable c reference name value =>
      apply Or.inl
      change (c.setVariable s reference name value).1.stack.getLast? = some b at hb
      rcases (stack_setVariable c s reference name value).2 with
        hsame | ⟨_, frame, _, bindings, hmap⟩
      · rw [hsame] at hb
        exact ⟨b, hb, .refl b⟩
      · rw [hmap.2.2.2.2, List.getLast?_map] at hb
        obtain ⟨a, ha, rfl⟩ := Option.map_eq_some_iff.1 hb
        refine ⟨a, ha, ?_⟩
        obtain ⟨content, hcontent⟩ := State.exists_rebound frame bindings a
        rw [hcontent]
        exact ⟨rfl, rfl, rfl⟩

/-- What the outermost frame `b` was started for, on the way that the drives `ds` have led from
`s`. -/
inductive StartedFor (s : State) (ds : List Drive) (b : Activation) : Prop
  /-- For the module. -/
  | module (hunit : b.unit = ⟨0⟩) (hcallee : b.callee = none)
  /-- For a call that an instruction defers, the oldest one when the stack was empty. -/
  | deferred (front back : List Drive) {call : DeferredCall} {rest : List DeferredCall}
    (hds : ds = front ++ back) (hdefers : s.program.Defers call)
    (hstack : (drive s front).stack = []) (hdeferred : (drive s front).deferred = call :: rest)
    (hunit : b.unit = call.unit) (hcallee : b.callee = some call.name)

theorem startedFor_of_outermost {s : State} (hsound : s.control.Sound) (hempty : s.stack = [])
    (hnone : s.deferred = []) (ds : List Drive) {b : Activation}
    (hb : (drive s ds).stack.getLast? = some b) : StartedFor s ds b := by
  induction ds using List.reverseRecOn generalizing b with
  | nil =>
      rw [drive, hempty] at hb
      cases hb
  | append_singleton ds d ih =>
      rw [drive_append] at hb
      rcases outermost_act (sound_drive hsound ds) d hb with ⟨a, ha, hsame⟩ | hroots
      · cases ih ha with
        | module hunit hcallee =>
            exact .module (hsame.unit.trans hunit) (hsame.callee.trans hcallee)
        | deferred front back hds hdefers hstack hdeferred hunit hcallee =>
            refine .deferred front (back ++ [d]) ?_ hdefers hstack hdeferred
              (hsame.unit.trans hunit) (hsame.callee.trans hcallee)
            rw [hds, List.append_assoc]
      · cases hroots with
        | module _ _ hunit hcallee => exact .module hunit hcallee
        | @deferred call rest hstack hdeferred _ hunit hcallee =>
            have hdefers : s.program.Defers call := by
              apply defers_of_mem hsound hnone ds
              rw [hdeferred]
              exact List.mem_cons_self
            exact .deferred ds [d] rfl hdefers hstack hdeferred hunit hcallee

/-! ## The call stack -/

/-- A machine saves no frames. -/
theorem olderSaved_of_frame? {s : State} {frame : FrameId} {info : FrameInfo}
    (h : Engine.frame? s frame = some info) : info.olderSaved = none := by
  change State.frameInfo? s.program frame s.stack = some info at h
  generalize s.stack = stack at h
  induction stack with
  | nil => cases h
  | cons a below ih =>
      rw [State.frameInfo?] at h
      split at h
      · obtain rfl := Option.some.inj h
        rfl
      · exact ih h

/-- The shape of a machine's call stack. -/
structure CallStack (s : State) : Prop where
  /-- A frame under another one waits, at a call that means the unit of the frame above it. -/
  waits : ∀ newer above caller older, s.stack = newer ++ above :: caller :: older →
    caller.awaitingReturn = true ∧ ∃ i name args,
      s.program.instruction? caller.unit caller.pc = some i ∧ i.op = .call name args ∧
        s.program.lookupFunction caller.unit name = some above.unit
  /-- The running frame waits for nothing. -/
  running : ∀ top older, s.stack = top :: older → top.awaitingReturn = false
  /-- From the bottom to the top, numbers grow. -/
  ascending : (s.stack.reverse.map fun a => a.id.number).Pairwise (· < ·)
  /-- The number of the next frame is above them. -/
  numbered : ∀ a ∈ s.stack, a.id.number < s.nextFrame
  /-- From the running frame, the links to the frames below visit every frame once, and end at the
  bottom of the stack. -/
  links : ∀ top older, s.stack = top :: older →
    ∃ frames, CallerChain s top.id frames ∧ frames.map Prod.fst = s.stack.map (·.id) ∧
      (frames.map Prod.fst).Nodup ∧ ∀ entry ∈ frames, entry.2.caller = entry.2.older
  /-- No frame stands past the end of its code. -/
  inCode : ∀ a ∈ s.stack, a.pc ≤ s.program.codeLength a.unit

theorem callStack_of_sound {s : State} (hsound : s.control.Sound) (hcode : s.control.InCode) :
    CallStack s where
  waits := by
    intro newer above caller older hstack
    have hsplit : s.control.stack = newer.map Activation.control ++
        above.control :: caller.control :: older.map Activation.control := by
      show s.stack.map Activation.control = _
      rw [hstack, List.map_append, List.map_cons, List.map_cons]
    cases hcontrol : s.control.stack with
    | nil => simp [hcontrol] at hsplit
    | cons top below =>
        have hwaits := (hsound.nested top below hcontrol).waits (hcontrol.symm.trans hsplit)
        exact ⟨hwaits.awaiting, hwaits.calls⟩
  running := by
    intro top older hstack
    exact hsound.running top.control _ (Machine.control_stack hstack)
  ascending := by
    have hdescending := hsound.descending
    change (s.stack.map Activation.control).Pairwise _ at hdescending
    rw [List.pairwise_map] at hdescending ⊢
    rw [List.pairwise_reverse]
    exact hdescending
  numbered := by
    intro a ha
    exact hsound.numbered a.control (List.mem_map_of_mem ha)
  links := by
    intro top older hstack
    have hids := State.nodup_ids hsound
    have hwhole : s.stack = [] ++ top :: older := hstack
    obtain ⟨frames, hchain, hframes⟩ := callerChain_below hids hwhole
    rw [← hstack] at hframes
    refine ⟨frames, hchain, hframes, ?_, ?_⟩
    · rw [hframes]
      exact hids
    · intro entry hentry
      have hsaved := olderSaved_of_frame? (hchain.frame?_of_mem hentry)
      rw [FrameInfo.caller, hsaved, Option.or_none]
  inCode := by
    intro a ha
    exact hcode a.control (List.mem_map_of_mem ha)

/-- After any drives from the start of a program, the call stack has its shape, a number that has
left the stack never resolves again, and the outermost frame was started for the module or for a
deferred call. -/
theorem drive_callStack (library : String → Option String) (program : Program) (ds : List Drive) :
    CallStack (drive (State.initial library program) ds) ∧
      (∀ front back frame, ds = front ++ back →
        (Engine.frame? (drive (State.initial library program) front) frame).isSome →
        Engine.frame? (drive (State.initial library program) ds) frame = none →
        ∀ more, Engine.frame? (drive (State.initial library program) (ds ++ more)) frame = none) ∧
      ∀ outer, (drive (State.initial library program) ds).stack.getLast? = some outer →
        StartedFor (State.initial library program) ds outer := by
  have hinitial := Machine.sound_initial library program
  have hsound := sound_drive hinitial ds
  refine ⟨?_, ?_, ?_⟩
  · have hempty : (State.initial library program).control.InCode := nofun
    exact callStack_of_sound hsound (control_drive (fun c hc h => h.tick hc) hinitial hempty ds).2
  · intro front back frame hds hthere hnone more
    have hfront := sound_drive hinitial front
    have hold := lt_nextFrame hfront hthere
    have hnext := nextFrame_drive hfront back
    rw [← drive_append, ← hds] at hnext
    rw [drive_append]
    apply frame?_drive_of_gone hsound _ hnone
    omega
  · intro outer houter
    exact startedFor_of_outermost hinitial rfl rfl ds houter

end ScriptDebugger.Debug
