import ScriptDebugger.Proofs.Machine.Places
import ScriptDebugger.Proofs.Machine.StackShape
/-!
# Functions have code

A function is closed by its `end`, which adds a return to it. So in a compiled program the module is
the only unit that can be without instructions, and a program whose module has none never has
another frame than the module's.

## Main results

* `onlyModuleEmpty_of_ofSource` — a unit without instructions is the module.
* `Control.Bare.after` — a module without instructions runs alone.
-/

namespace ScriptDebugger.Machine

open Source (Block Instruction Nest Statement Command)

/-! ## Closed functions -/

/-- No function inside the block, at whatever depth, is without instructions. -/
def Filled (b : Block) : Prop := ∀ code ∈ codesAll b.functions, code ≠ []

/-- The same of every open block. -/
def AllFilled (nest : Nest) : Prop := ∀ b ∈ nest.inner :: nest.outer, Filled b

namespace AllFilled

variable {nest next : Nest} {location : Location}

theorem emit (h : AllFilled nest) (ops : List Source.Op) : AllFilled (nest.emit ops location) := by
  intro b hb
  rcases List.mem_cons.1 hb with rfl | hb
  · exact h nest.inner List.mem_cons_self
  · exact h b (List.mem_cons_of_mem _ hb)

/-- A function that is closed has a return. -/
theorem close (h : AllFilled nest) (hnext : nest.close location = .ok next) : AllFilled next := by
  simp only [Nest.close] at hnext
  split at hnext
  · cases hnext
  · rename_i parent rest houter
    split at hnext
    · cases hnext
    · obtain rfl := Except.ok.inj hnext
      have hparent : Filled parent := h parent (by simp [houter])
      have hinner : Filled nest.inner := h nest.inner List.mem_cons_self
      intro b hb
      rcases List.mem_cons.1 hb with rfl | hb
      · intro code hcode
        rw [codesAll_append, codesAll, codesAll, codes_eq, List.append_nil] at hcode
        rcases List.mem_append.1 hcode with hcode | hcode
        · exact hparent code hcode
        · rcases List.mem_cons.1 hcode with rfl | hcode
          · show nest.inner.code ++ [⟨.ret, location⟩] ≠ []
            simp
          · exact hinner code hcode
      · exact h b (by simp [houter, hb])

theorem apply (h : AllFilled nest) {command : Command}
    (hnext : nest.apply location command = .ok next) : AllFilled next := by
  cases command with
  | assign binding name value =>
      obtain rfl := Except.ok.inj hnext
      exact h.emit _
  | call name args =>
      obtain rfl := Except.ok.inj hnext
      exact h.emit _
  | defer name args =>
      obtain rfl := Except.ok.inj hnext
      exact h.emit _
  | print value =>
      obtain rfl := Except.ok.inj hnext
      exact h.emit _
  | function name params =>
      obtain rfl := Except.ok.inj hnext
      intro b hb
      rcases List.mem_cons.1 hb with rfl | hb
      · intro code hcode
        cases hcode
      · exact h b hb
  | finish => exact h.close hnext

theorem addAll {statements : List Statement} (h : AllFilled nest)
    (hnext : nest.addAll statements = .ok next) : AllFilled next := by
  induction statements generalizing nest with
  | nil =>
      obtain rfl := Except.ok.inj hnext
      exact h
  | cons s rest ih =>
      obtain ⟨command, middle, -, happly, hnext⟩ := of_addAll_cons hnext
      exact ih (h.apply happly) hnext

end AllFilled

theorem filled_of_compile {source : String} {block : Block}
    (h : Source.compile source = .ok block) : Filled block := by
  have hstart : AllFilled ⟨Block.emptyModule (Text.lines source).length, []⟩ := by
    intro b hb code hcode
    obtain rfl := List.mem_singleton.1 hb
    cases hcode
  exact hstart.addAll (of_compile h) block List.mem_cons_self

/-- Only the module may be without instructions. -/
def Program.OnlyModuleEmpty (p : Program) : Prop :=
  ∀ unit, (p.unit? unit).isSome → p.codeLength unit = 0 → unit = ⟨0⟩

/-- In a compiled program a unit without instructions is the module. -/
theorem onlyModuleEmpty_of_ofSource {url source : String} {p : Program}
    (h : Program.ofSource url source = .ok p) : p.OnlyModuleEmpty := by
  unfold Program.ofSource at h
  split at h
  · rename_i block hblock
    obtain rfl := Except.ok.inj h
    intro unit hunit hempty
    obtain ⟨code, hcode⟩ := Option.isSome_iff_exists.1 hunit
    rw [Program.codeLength, hcode] at hempty
    have hnil : code.code = [] := List.eq_nil_of_length_eq_zero hempty
    have hat : (codes block)[unit.number]? = some [] := by
      rw [← map_code_flatten none 0 block, List.getElem?_map, ← hnil]
      exact congrArg (Option.map CodeUnit.code) hcode
    rw [codes_eq] at hat
    cases hnumber : unit.number with
    | zero => exact congrArg UnitId.mk hnumber
    | succ n =>
        rw [hnumber, List.getElem?_cons_succ] at hat
        exact absurd rfl (filled_of_compile hblock [] (List.mem_of_getElem? hat))
  · cases h

/-! ## A module without instructions -/

namespace Control

/-- No call waits, and no frame but the module's runs. -/
structure Bare (c : Control) : Prop where
  queue : c.queue = []
  stack : c.stack = [] ∨ ∃ f, c.stack = [f] ∧ f.unit = ⟨0⟩

/-- A module without instructions calls and defers nothing. -/
theorem Bare.tick {c : Control} (h : Bare c) (hempty : c.program.codeLength ⟨0⟩ = 0)
    (hunstarted : c.started = false → c.stack = []) : Bare c.tick := by
  have hnothing : ∀ {top : ControlFrame} {below : List ControlFrame} {i : Instruction},
      c.stack = top :: below → c.program.instruction? top.unit top.pc ≠ some i := by
    intro top below i hstack hinstr
    rcases h.stack with hnil | ⟨f, hf, hunit⟩
    · cases hnil.symm.trans hstack
    · obtain ⟨rfl, -⟩ := List.cons.inj (hf.symm.trans hstack)
      have hlt := Program.lt_codeLength hinstr
      rw [hunit, hempty] at hlt
      exact absurd hlt (Nat.not_lt_zero _)
  have hqueue := h.queue
  have hstep := step_tick c
  generalize c.tick = d at hstep
  cases hstep with
  | start hstarted =>
      have hstack := hunstarted hstarted
      unfold push
      split
      · exact ⟨hqueue, Or.inr ⟨.fresh c.nextFrame ⟨0⟩, by simp [hstack], rfl⟩⟩
      · exact ⟨hqueue, Or.inl hstack⟩
  | finish => exact h
  | unqueue _ _ hwaiting => cases hqueue.symm.trans hwaiting
  | @enter top below _ hstack =>
      refine ⟨hqueue, Or.inr ⟨{ top with entered := true }, ?_⟩⟩
      rcases h.stack with hnil | ⟨f, hf, hunit⟩
      · cases hnil.symm.trans hstack
      · obtain ⟨rfl, rfl⟩ := List.cons.inj (hf.symm.trans hstack)
        exact ⟨rfl, hunit⟩
  | @leave top below _ hstack =>
      refine ⟨hqueue, Or.inl ?_⟩
      rcases h.stack with hnil | ⟨f, hf, -⟩
      · cases hnil.symm.trans hstack
      · rw [Control.pop, hf]
        rfl
  | consider _ hstack _ hinstr => exact absurd hinstr (hnothing hstack)
  | call _ hstack _ hinstr => exact absurd hinstr (hnothing hstack)
  | ret _ hstack _ hinstr => exact absurd hinstr (hnothing hstack)
  | pass _ _ hstack _ hinstr => exact absurd hinstr (hnothing hstack)

/-- A module without instructions runs alone. -/
theorem Bare.after {p : Program} (hempty : p.codeLength ⟨0⟩ = 0) (n : Nat) :
    Bare ((Control.initial p).after n) := by
  induction n with
  | zero => exact ⟨rfl, Or.inl rfl⟩
  | succ n ih =>
      have hsound := (sound_initial (fun _ => none) p).after n
      refine ih.tick ?_ fun hstarted => (hsound.unstarted hstarted).1
      rw [after_program]
      exact hempty

end Control

end ScriptDebugger.Machine
