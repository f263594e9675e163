import ScriptDebugger.Proofs.Debug.Progress
import ScriptDebugger.Proofs.Debug.PausedStack
import ScriptDebugger.Proofs.Machine.Scopes
import ScriptDebugger.Proofs.Source.Spans
/-!
# The lines of a scope

The scope of a frame's bindings is shown with the lines of the frame's code unit. A unit counts its
lines with the first and the last one, and the scope is shown to end where that many lines behind
the first one are: one line behind the last one. So what the unit holds stands inside the scope, and
so does one line that the unit does not have. Where two functions stand on lines one behind the
other, that line is the first one of the second function, and the scopes of both have it.

## Main results

* `mem_flatten` — every unit of a program is a block in the tree of its text.
* `Reached.compiled` — a machine that is reached has a compiled program.
* `scopes_one_line_more` — the lines of the scopes in a pause.
-/

namespace ScriptDebugger

namespace Machine

open Source (Block)

mutual

/-- Every unit of a program is a block in the tree of its text. -/
theorem mem_flatten (parent : Option UnitId) (id : Nat) :
    ∀ (b : Block) (unit : CodeUnit), unit ∈ flatten parent id b →
      ∃ around number f, f.Within b ∧ unit = unitOf around number f
  | ⟨name, params, start, lineCount, code, functions⟩, unit, h => by
    rw [flatten] at h
    rcases List.mem_cons.1 h with rfl | h
    · exact ⟨parent, id, _, Or.inl rfl, rfl⟩
    · obtain ⟨around, number, f, g, hg, hf, hunit⟩ := mem_flattenAll _ _ functions unit h
      refine ⟨around, number, f, Or.inr ?_, hunit⟩
      rcases hf with rfl | hinside
      · exact .direct hg
      · exact .deeper hg hinside

theorem mem_flattenAll (parent : Option UnitId) (id : Nat) :
    ∀ (bs : List Block) (unit : CodeUnit), unit ∈ flattenAll parent id bs →
      ∃ around number f g, g ∈ bs ∧ f.Within g ∧ unit = unitOf around number f
  | [], unit, h => by cases h
  | b :: rest, unit, h => by
    rw [flattenAll] at h
    rcases List.mem_append.1 h with h | h
    · obtain ⟨around, number, f, hf, hunit⟩ := mem_flatten _ _ b unit h
      exact ⟨around, number, f, b, List.mem_cons_self, hf, hunit⟩
    · obtain ⟨around, number, f, g, hg, hf, hunit⟩ := mem_flattenAll _ _ rest unit h
      exact ⟨around, number, f, g, List.mem_cons_of_mem b hg, hf, hunit⟩

end

/-- The text that a program is compiled from, and its tree. -/
structure Program.CompiledFrom (p : Program) (source : String) (module : Block) : Prop where
  compiled : Source.compile source = .ok module
  laid : p = Program.ofBlock p.url module

theorem Program.compiledFrom_of_ofSource {url source : String} {p : Program}
    (h : Program.ofSource url source = .ok p) : ∃ module, p.CompiledFrom source module := by
  unfold Program.ofSource at h
  split at h
  · rename_i module hmodule
    obtain rfl := Except.ok.inj h
    exact ⟨module, hmodule, rfl⟩
  · cases h

theorem Program.CompiledFrom.within {p : Program} {source : String} {module : Block}
    (h : p.CompiledFrom source module) {id : UnitId} {unit : CodeUnit}
    (hunit : p.unit? id = some unit) :
    ∃ around number b, b.Within module ∧ unit = unitOf around number b := by
  rw [h.laid] at hunit
  exact mem_flatten none 0 module unit (List.mem_of_getElem? hunit)

end Machine

namespace Debug

open Machine (Activation Program State unitOf)
open Source (Block Spans)
open Wire (Scope)

/-- A machine that is reached has a compiled program. -/
theorem Reached.compiled {c : Context} {s : State} (h : Reached c s) :
    ∃ source module, s.program.CompiledFrom source module := by
  induction h with
  | start hsource => exact ⟨_, Program.compiledFrom_of_ofSource hsource⟩
  | @select c s path h ih =>
      show ∃ source module, (s.selectProgram path).program.CompiledFrom source module
      unfold State.selectProgram
      split
      · exact ih
      · split
        · rename_i program hload
          obtain ⟨source, hsource⟩ := Program.exists_source_of_load hload
          exact ⟨source, Program.compiledFrom_of_ofSource hsource⟩
        · exact ih
  | @serve c c' s s' message reply h hserve ih =>
      have hprogram : s'.program = s.program :=
        congrArg Machine.Control.program (touched_perform hserve).1.control
      rw [hprogram]
      exact ih
  | resume mode h ih => exact ih
  | @run c c' s s' stop fuel h hrunning hrun ih =>
      rw [runWithin_program hrun]
      exact ih

/-- Every frame runs a unit that exists. -/
theorem Reached.unit? {c : Context} {s : State} (h : Reached c s) {a : Activation}
    (ha : a ∈ s.stack) : ∃ unit, s.program.unit? a.unit = some unit := by
  obtain ⟨n, hn⟩ := h.steady.onTrace.control
  have hmem : a.control ∈ ((Machine.Control.initial s.program).after n).stack := by
    rw [← hn]
    exact List.mem_map_of_mem ha
  exact Option.isSome_iff_exists.1 (Machine.Control.unit?_after s.program n a.control hmem)

/-- The scope of a frame is shown with the lines of its unit. -/
theorem Reached.scopes_eq {c : Context} {s : State} (h : Reached c s) {paused : FrameId}
    (hpaused : c.stepper.paused = some paused) {k : Nat} (hk : k < maxFrames) {a : Activation}
    (ha : s.stack[k]? = some a) {unit : Machine.CodeUnit}
    (hunit : s.program.unit? a.unit = some unit) :
    ∃ locals, c.scopes s k = .ok [locals, Context.globals] ∧
      locals.source = some s.program.url ∧ locals.line = some unit.start.line ∧
      locals.endLine = some (unit.start.line + unit.lineCount) := by
  obtain ⟨frames, hchain, hframes⟩ := h.callerChain hpaused
  have hentry : (frames.map Prod.fst)[k]? = some a.id := by
    rw [hframes, List.getElem?_map, ha]
    rfl
  rw [List.getElem?_map] at hentry
  obtain ⟨entry, hentry, hid⟩ := Option.map_eq_some_iff.1 hentry
  have hframe := hchain.frame?_of_mem (List.mem_of_getElem? hentry)
  have hids := State.nodup_ids h.steady.onTrace.sound
  obtain ⟨above, below, hstack⟩ := List.append_of_mem (List.mem_of_getElem? ha)
  rw [hid, frame?_of_stack hids hstack, State.frameInfo?, if_pos rfl] at hframe
  have hcode : entry.2.unit = some a.unit := by rw [← Option.some.inj hframe]
  have hinfo : Engine.unitInfo? s a.unit = some ⟨s.program.url, unit.start, unit.lineCount⟩ := by
    show (s.program.unit? a.unit).map _ = _
    rw [hunit]
    rfl
  have hscopes := Context.scopes_eq hpaused hchain k
  simp only [hentry, if_pos hk] at hscopes
  refine ⟨_, hscopes, ?_, ?_, ?_⟩
  all_goals
    simp only [Context.localsOf, hcode, Option.bind_some, hinfo]
    rfl

/-! ## One line more -/

/-- The scope that is shown for the frames of a block has the line. -/
def InScope (b : Block) (line : Nat) : Prop :=
  b.start.line ≤ line ∧ line ≤ b.start.line + b.lineCount

/-- The lines that scopes are shown with, in a pause of a program with the tree `module`. -/
structure ScopeLines (c : Context) (s : State) (source : String) (module : Block) : Prop where
  /-- The scope of a frame starts where its unit does, and ends one line behind the last line of its
  unit. -/
  frames : ∀ k a, k < maxFrames → s.stack[k]? = some a → ∃ around number b last locals,
    b.Within module ∧ s.program.unit? a.unit = some (unitOf around number b) ∧
      Spans source b last ∧ c.scopes s k = .ok [locals, Context.globals] ∧
      locals.source = some s.program.url ∧ locals.line = some b.start.line ∧
      locals.endLine = some (last + 1)
  /-- So it has the lines of all instructions, and one line that the unit does not have. -/
  covered : ∀ (b : Block) (last : Nat), b.Within module → Spans source b last →
    (∀ i ∈ b.code, InScope b i.location.line) ∧ ∀ line, InScope b line → last < line →
      line = last + 1
  /-- Of two functions directly inside one block, the second one starts no earlier than the first
  one ends. If they share no line, their scopes share one just where the second one starts on the
  line behind the first one. -/
  siblings : ∀ (b f g : Block) (front middle back : List Block) (last : Nat), b.Within module →
    b.functions = front ++ f :: (middle ++ g :: back) → Spans source f last →
      last ≤ g.start.line ∧ (last < g.start.line →
        ((∃ line, InScope f line ∧ InScope g line) ↔ g.start.line = last + 1))

theorem scopeLines_siblings {source : String} {module b f g : Block}
    {front middle back : List Block} {last : Nat} (hmodule : Source.compile source = .ok module)
    (hb : b.Within module) (hsplit : b.functions = front ++ f :: (middle ++ g :: back))
    (hspans : Spans source f last) :
    last ≤ g.start.line ∧ (last < g.start.line →
      ((∃ line, InScope f line ∧ InScope g line) ↔ g.start.line = last + 1)) := by
  have hcount := hspans.count
  have hpairwise := Source.functions_pairwise hmodule hb
  rw [hsplit] at hpairwise
  have hbehind := (List.pairwise_cons.1 (List.pairwise_append.1 hpairwise).2.1).1 g
    (List.mem_append_right middle List.mem_cons_self)
  have hle : last ≤ g.start.line := by omega
  refine ⟨hle, ?_⟩
  intro hapart
  constructor
  · rintro ⟨line, ⟨-, hf⟩, hg, -⟩
    omega
  · intro hnext
    refine ⟨g.start.line, ⟨?_, ?_⟩, Nat.le_refl _, Nat.le_add_right _ _⟩
    · omega
    · omega

/-- In every pause that is reached, the scope of a frame ends one line behind the last line of the
frame's unit. -/
theorem scopes_one_line_more {c : Context} {s : State} (h : Reached c s) {paused : FrameId}
    (hpaused : c.stepper.paused = some paused) :
    ∃ source module, s.program.CompiledFrom source module ∧ ScopeLines c s source module := by
  obtain ⟨source, module, hcompiled⟩ := h.compiled
  refine ⟨source, module, hcompiled, ?_, ?_, ?_⟩
  · intro k a hk ha
    obtain ⟨unit, hunit⟩ := h.unit? (List.mem_of_getElem? ha)
    obtain ⟨around, number, b, hb, rfl⟩ := hcompiled.within hunit
    obtain ⟨last, hspans⟩ := Source.spans_of_compile hcompiled.compiled hb
    obtain ⟨locals, hscopes, hurl, hline, hend⟩ := h.scopes_eq hpaused hk ha hunit
    refine ⟨around, number, b, last, locals, hb, hunit, hspans, hscopes, hurl, hline, ?_⟩
    rw [hend, ← hspans.count]
    rfl
  · intro b last hb hspans
    have hcount := hspans.count
    constructor
    · intro i hi
      obtain ⟨hfirst, hlast⟩ := hspans.inside i hi
      refine ⟨hfirst, ?_⟩
      omega
    · rintro line ⟨-, hline⟩ hbehind
      omega
  · intro b f g front middle back last hb hsplit hspans
    exact scopeLines_siblings hcompiled.compiled hb hsplit hspans

/-- The pause at the entry of the function that the first statement calls. -/
private def entryPause (program : Program) : Option (Context × State) :=
  (Context.initial.runWithin 3 (State.initial (fun _ => none) program)).bind fun loaded =>
    ((loaded.1.resume .into).runWithin 5 loaded.2.1).map fun entry => (entry.1, entry.2.1)

private theorem reached_of_entryPause {url source : String} {program : Program} {c : Context}
    {s : State} (hsource : Program.ofSource url source = .ok program)
    (h : entryPause program = some (c, s)) : Reached c s := by
  obtain ⟨⟨loaded, first, stop⟩, hfirst, hrest⟩ := Option.bind_eq_some_iff.1 h
  obtain ⟨⟨entry, second, stop'⟩, hsecond, hsame⟩ := Option.map_eq_some_iff.1 hrest
  obtain ⟨rfl, rfl⟩ := Prod.mk.inj hsame
  have hloaded : Reached loaded first := .run (.start hsource) rfl hfirst
  exact .run (hloaded.resume .into) (loaded.resume_running .into) hsecond

/-- Two functions on lines one behind the other. -/
private def neighbours : String := "call f\nfunction f\n  print 1\nend\nfunction g\nend\n"

private theorem exists_neighbours :
    ∃ program c s, Program.ofSource "main.mod" neighbours = .ok program ∧ Reached c s ∧
      c.stepper.paused = some ⟨2⟩ ∧
      (c.scopes s 0).toOption.map (·.map fun scope => (scope.line, scope.endLine)) =
        some [(some 2, some 5), (none, none)] ∧
      s.stack.head?.map (·.unit) = some ⟨1⟩ ∧
      program.units.map (fun unit =>
        (unit.start.line, unit.code.getLast?.map fun i => i.location.line)) =
        [(1, some 1), (2, some 4), (5, some 6)] := by
  have hcomputed :
      ((Program.ofSource "main.mod" neighbours).toOption.bind fun program =>
        (entryPause program).map fun entry =>
          (entry.1.stepper.paused,
            (entry.1.scopes entry.2 0).toOption.map
              (·.map fun scope => (scope.line, scope.endLine)),
            entry.2.stack.head?.map (·.unit),
            program.units.map fun unit =>
              (unit.start.line, unit.code.getLast?.map fun i => i.location.line))) =
      some
        (some ⟨2⟩, some [(some 2, some 5), (none, none)], some ⟨1⟩,
          [(1, some 1), (2, some 4), (5, some 6)]) := by cbv
  obtain ⟨program, hsource, hprogram⟩ := Program.exists_of_ofSource hcomputed
  obtain ⟨⟨c, s⟩, hentry, hdata⟩ := Option.map_eq_some_iff.1 hprogram
  simp only [Prod.mk.injEq] at hdata
  exact ⟨program, c, s, hsource, reached_of_entryPause hsource hentry, hdata⟩

theorem scopes_one_line_more_neighbours :
    ∃ c s, (Reached c s ∧ c.stepper.paused = some ⟨2⟩) ∧
      ∃ source module, s.program.CompiledFrom source module ∧ ScopeLines c s source module := by
  obtain ⟨-, c, s, -, hreached, hpaused, -⟩ := exists_neighbours
  exact ⟨c, s, ⟨hreached, hpaused⟩, scopes_one_line_more hreached hpaused⟩

/-- The scope of a function that ends on the fourth line is shown up to the fifth one, on which the
next function starts. -/
theorem scopes_into_next_function :
    ∃ program c s,
      Program.ofSource "main.mod"
          "call f\nfunction f\n  print 1\nend\nfunction g\nend\n" = .ok program ∧
      Reached c s ∧ c.stepper.paused = some ⟨2⟩ ∧
      (c.scopes s 0).toOption.map (·.map fun scope => (scope.line, scope.endLine)) =
        some [(some 2, some 5), (none, none)] ∧
      s.stack.head?.map (·.unit) = some ⟨1⟩ ∧
      program.units.map (fun unit =>
        (unit.start.line, unit.code.getLast?.map fun i => i.location.line)) =
        [(1, some 1), (2, some 4), (5, some 6)] := exists_neighbours

end Debug

end ScriptDebugger
