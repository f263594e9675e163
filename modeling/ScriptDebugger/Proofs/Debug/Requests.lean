import ScriptDebugger.Proofs.Debug.Steady
/-!
# Requests during a pause

A request that is answered leaves the machine where it is. It may set breakpoints, but only where a
statement starts, clear them, and give new values to variables.

## Main results

* `touched_perform` — what an answered request may do.
* `Steady.of_touched` — it keeps the debugger and the machine in step.
-/

namespace ScriptDebugger.Debug

open Machine (State Activation Control ControlFrame Program)
open Wire (HostMessage DebuggerMessage)

/-- The machine `t` is `s` with other data and with breakpoints that were set where a statement
starts. -/
structure Touched (s t : State) : Prop where
  control : t.control = s.control
  reports : ∀ a ∈ t.stack, ∃ b ∈ s.stack, a.popReported = b.popReported
  armed : s.program.Placed → ∀ unit offset, t.hasBreakpoint unit offset = true →
    s.hasBreakpoint unit offset = true ∨
      ∃ i, s.program.instruction? unit offset = some i ∧ i.op.isStore = false

theorem touched_refl (s : State) : Touched s s :=
  ⟨rfl, fun a ha => ⟨a, ha, rfl⟩, fun _ _ _ hset => Or.inl hset⟩

theorem touched_heap (s : State) (heap : Machine.Heap) : Touched s { s with heap } :=
  ⟨rfl, fun a ha => ⟨a, ha, rfl⟩, fun _ _ _ hset => Or.inl hset⟩

namespace Touched

variable {s t u : State}

theorem trans (h : Touched s t) (h' : Touched t u) : Touched s u where
  control := h'.control.trans h.control
  reports a ha := by
    obtain ⟨b, hb, hab⟩ := h'.reports a ha
    obtain ⟨c, hc, hbc⟩ := h.reports b hb
    exact ⟨c, hc, hab.trans hbc⟩
  armed hplaced unit offset hset := by
    have hprogram : t.program = s.program := congrArg Control.program h.control
    have hthere := h'.armed (by rwa [hprogram]) unit offset hset
    rw [hprogram] at hthere
    exact hthere.elim (h.armed hplaced unit offset) Or.inr

end Touched

/-! ## Variables -/

section

variable {s t : State} {id : ObjectId} {frame : FrameId} {name : String} {value : Value}

theorem setProperty_ok (h : Engine.setProperty s id name value = .ok t) :
    (∃ o, s.heap.get? id = some o) ∧
      t = { s with heap := s.heap.defineProperty id name value } := by
  change (s.heap.setProperty id name value).map (fun heap => ({ s with heap } : State)) = .ok t at h
  unfold Machine.Heap.setProperty at h
  cases hget : s.heap.get? id with
  | none =>
      rw [hget] at h
      cases h
  | some o =>
      rw [hget] at h
      exact ⟨⟨o, rfl⟩, (Except.ok.inj h).symm⟩

theorem setBinding_ok (h : Engine.setBinding s frame name value = .ok t) :
    ∃ a bindings, s.activation? frame = some a ∧
      Machine.update? name value a.bindings = some bindings ∧
      t = { s with
        stack := s.stack.map fun b => if b.id = frame then { b with bindings } else b } := by
  change s.setBinding frame name value = .ok t at h
  unfold State.setBinding at h
  split at h
  · cases h
  · rename_i a ha
    split at h
    · cases h
    · rename_i bindings hbindings
      exact ⟨a, bindings, ha, hbindings, (Except.ok.inj h).symm⟩

theorem touched_setProperty (h : Engine.setProperty s id name value = .ok t) : Touched s t := by
  obtain ⟨-, rfl⟩ := setProperty_ok h
  exact touched_heap s _

theorem touched_setBinding (h : Engine.setBinding s frame name value = .ok t) : Touched s t := by
  obtain ⟨-, bindings, -, -, rfl⟩ := setBinding_ok h
  refine ⟨?_, ?_, fun _ _ _ hset => Or.inl hset⟩
  · simp only [State.control, List.map_map]
    congr 1
    refine List.map_congr_left fun a _ => ?_
    simp only [Function.comp_apply]
    split <;> rfl
  · intro a ha
    obtain ⟨b, hb, rfl⟩ := List.mem_map.1 ha
    refine ⟨b, hb, ?_⟩
    split <;> rfl

end

theorem touched_importValue (s : State) (json : Json) :
    Touched s (Engine.importValue s json).1 :=
  touched_heap s _

theorem touched_setVariable (c : Context) (s : State) (reference : Nat) (name : String)
    (value : Json) : Touched s (c.setVariable s reference name value).1 := by
  unfold Context.setVariable
  split
  · exact touched_refl s
  · have himport := touched_importValue s value
    simp only
    split
    · exact himport
    · rename_i hset
      exact himport.trans (touched_setProperty hset)
  · split
    · exact touched_refl s
    · have himport := touched_importValue s value
      simp only
      split
      · exact himport
      · rename_i hset
        exact himport.trans (touched_setBinding hset)

/-! ## Breakpoints -/

theorem mem_candidatesIn {s : State} {line column depth : Nat} {unit : UnitId} {c : Candidate}
    (h : c ∈ Breakpoints.candidatesIn s line column depth unit) :
    c.offset ∈ Engine.breakpointOffsets s c.unit line column := by
  induction depth generalizing unit with
  | zero => cases h
  | succ depth ih =>
      rw [Breakpoints.candidatesIn] at h
      rcases List.mem_append.1 h with h | h
      · obtain ⟨offset, hoffset, hmap⟩ := List.mem_filterMap.1 h
        obtain ⟨location, -, rfl⟩ := Option.map_eq_some_iff.1 hmap
        exact hoffset
      · obtain ⟨child, -, hchild⟩ := List.mem_flatMap.1 h
        exact ih hchild

/-- A breakpoint can be set where a statement starts. -/
theorem resolve_not_store {b : Breakpoints} {s : State} {path : String} {line column : Nat}
    {c : Candidate} (h : b.resolve s path line column = some c) (hplaced : s.program.Placed) :
    ∃ i, s.program.instruction? c.unit c.offset = some i ∧ i.op.isStore = false := by
  obtain ⟨unit, -, hunit⟩ := List.mem_flatMap.1 (List.mem_of_find?_eq_some h)
  have hmem : c.offset ∈ ((s.program.unit? c.unit).map fun unit =>
      Machine.statementOffsets line column none 0 unit.code).getD [] := mem_candidatesIn hunit
  cases hcode : s.program.unit? c.unit with
  | none =>
      rw [hcode] at hmem
      cases hmem
  | some code =>
      rw [hcode] at hmem
      exact hplaced.not_store_of_mem_statementOffsets hcode hmem

theorem touched_set (b : Breakpoints) (s : State) (path : String) (line column : Nat) :
    Touched s (b.set s path line column).2.1 := by
  unfold Breakpoints.set
  split
  · exact touched_refl s
  · rename_i c hc
    split
    · exact touched_refl s
    · by_cases hset : s.hasBreakpoint c.unit c.offset = true
      · have hsame : Engine.setBreakpoint s c.unit c.offset = s := if_pos hset
        rw [hsame]
        exact touched_refl s
      · have hnew : Engine.setBreakpoint s c.unit c.offset =
            { s with breakpoints := (c.unit, c.offset) :: s.breakpoints } := if_neg hset
        rw [hnew]
        refine ⟨rfl, fun a ha => ⟨a, ha, rfl⟩, fun hplaced unit offset hthere => ?_⟩
        simp only [State.hasBreakpoint, List.contains_cons, Bool.or_eq_true, beq_iff_eq,
          Prod.mk.injEq] at hthere
        rcases hthere with ⟨rfl, rfl⟩ | hthere
        · exact Or.inr (resolve_not_store hc hplaced)
        · exact Or.inl hthere

theorem touched_remove (b : Breakpoints) (s : State) (id : Int) :
    Touched s (b.remove s id).2.1 := by
  unfold Breakpoints.remove
  split
  · exact touched_refl s
  · refine ⟨rfl, fun a ha => ⟨a, ha, rfl⟩, fun _ unit offset hthere => Or.inl ?_⟩
    have hmem : (unit, offset) ∈ s.breakpoints.filter _ := List.contains_iff_mem.1 hthere
    exact List.contains_iff_mem.2 (List.mem_filter.1 hmem).1

/-! ## All requests -/

theorem variablesBehind_stepper {σ : Type} [Engine σ] {c c' : Context} {s : σ} {reference : Nat}
    {items : List Wire.Variable} (h : c.variablesBehind s reference = .ok (c', items)) :
    c'.stepper = c.stepper := by
  unfold Context.variablesBehind at h
  simp only [bind, Except.bind] at h
  split at h
  · cases h
  · split at h
    · obtain ⟨rfl, -⟩ := Prod.mk.inj (Except.ok.inj h)
      rfl
    · split at h
      · cases h
      · obtain ⟨rfl, -⟩ := Prod.mk.inj (Except.ok.inj h)
        rfl

theorem setVariable_stepper {σ : Type} [Engine σ] {c c' : Context} {s t : σ} {reference : Nat}
    {name : String} {value : Json} {v : Wire.Variable}
    (h : c.setVariable s reference name value = (t, .ok (c', v))) : c'.stepper = c.stepper := by
  have hsnd := congrArg Prod.snd h
  unfold Context.setVariable at hsnd
  split at hsnd
  · cases hsnd
  · simp only at hsnd
    split at hsnd
    · cases hsnd
    · obtain ⟨rfl, -⟩ := Prod.mk.inj (Except.ok.inj hsnd)
      rfl
  · split at hsnd
    · cases hsnd
    · simp only at hsnd
      split at hsnd
      · cases hsnd
      · obtain ⟨rfl, -⟩ := Prod.mk.inj (Except.ok.inj hsnd)
        rfl

/-- What an answered request may do. -/
theorem touched_perform {c c' : Context} {s s' : State} {message : HostMessage}
    {reply : Option DebuggerMessage}
    (h : Agent.perform c s message = (c', s', reply, .serve)) :
    Touched s s' ∧ c'.stepper = c.stepper := by
  have hcontext : (Agent.perform c s message).1 = c' := congrArg (·.1) h
  have hengine : (Agent.perform c s message).2.1 = s' := congrArg (·.2.1) h
  cases message with
  | setBreakpoint path line column =>
      subst hcontext hengine
      exact ⟨touched_set c.breakpoints s path line column, rfl⟩
  | removeBreakpoint id =>
      subst hcontext hengine
      exact ⟨touched_remove c.breakpoints s id, rfl⟩
  | getVariables reference =>
      simp only [Agent.perform] at hcontext hengine
      cases hitems : c.variablesBehind s reference with
      | error e =>
          rw [hitems] at hcontext hengine
          subst hcontext hengine
          exact ⟨touched_refl s, rfl⟩
      | ok result =>
          rw [hitems] at hcontext hengine
          subst hcontext hengine
          exact ⟨touched_refl s, variablesBehind_stepper hitems⟩
  | setVariable reference name value =>
      have htouched := touched_setVariable c s reference name value
      simp only [Agent.perform] at hcontext hengine
      rcases hresult : c.setVariable s reference name value with ⟨t, e | ⟨c'', v⟩⟩
      · rw [hresult] at hcontext hengine htouched
        subst hcontext hengine
        exact ⟨htouched, rfl⟩
      · rw [hresult] at hcontext hengine htouched
        subst hcontext hengine
        exact ⟨htouched, setVariable_stepper hresult⟩
  | loadProgram path => cases congrArg (·.2.2.2) h
  | next => cases congrArg (·.2.2.2) h
  | stepIn => cases congrArg (·.2.2.2) h
  | stepOut => cases congrArg (·.2.2.2) h
  | proceed => cases congrArg (·.2.2.2) h
  | unknown => cases congrArg (·.2.2.2) h
  | _ =>
      subst hcontext hengine
      exact ⟨touched_refl s, rfl⟩

/-- A request that is answered keeps the debugger and the machine in step. -/
theorem Steady.of_touched {c c' : Context} {s s' : State} (h : Steady c s)
    (htouched : Touched s s') (hstepper : c'.stepper = c.stepper) : Steady c' s' := by
  have honTrace : OnTrace s' :=
    h.onTrace.of_control_eq htouched.control htouched.reports (htouched.armed h.onTrace.placed)
  have hprogram : s'.program = s.program := congrArg Control.program htouched.control
  have hstarted : s'.started = s.started := congrArg Control.started htouched.control
  have hstacks : s'.stack.map Activation.control = s.stack.map Activation.control :=
    congrArg Control.stack htouched.control
  refine Steady.of_stepper_eq (c := c) ⟨honTrace, ?_, ?_, ?_⟩ hstepper
  · rw [htouched.control]
    exact h.aligned
  · intro hloading
    obtain ⟨hhooks, hbefore⟩ := h.loading hloading
    refine ⟨hhooks, hbefore.imp (fun hnot => hstarted.trans hnot) ?_⟩
    rintro ⟨top, hstack, hentered⟩
    rw [hstack] at hstacks
    obtain ⟨top', hstack', htop'⟩ := List.map_eq_singleton_iff.1 hstacks
    exact ⟨top', hstack', (congrArg ControlFrame.entered htop').trans hentered⟩
  · intro frame hframe
    obtain ⟨hhooks, hloaded, top, below, hstack, hid, hentered, hlast, hstore⟩ :=
      h.paused frame hframe
    refine ⟨hhooks, hloaded, ?_⟩
    rw [hstack] at hstacks
    obtain ⟨top', below', hstack', htop', -⟩ := List.map_eq_cons_iff.1 hstacks
    have hunit : top'.unit = top.unit := congrArg ControlFrame.unit htop'
    have hpc : top'.pc = top.pc := congrArg ControlFrame.pc htop'
    refine ⟨top', below', hstack', (congrArg ControlFrame.id htop').trans hid,
      (congrArg ControlFrame.entered htop').trans hentered, ?_, ?_⟩
    · rw [hprogram, hunit, hpc]
      exact hlast
    · rw [hprogram, hunit, hpc]
      exact hstore

end ScriptDebugger.Debug
