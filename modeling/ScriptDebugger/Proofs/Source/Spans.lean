import ScriptDebugger.Proofs.Source.Compiling
/-!
# The lines of a block

A function takes the lines from its `function` statement to its `end`, and the module takes all
lines of the text. What a block holds stands on its lines. Functions directly inside one block
stand one behind the other, so two of them share at most the line on which the first one ends.

## Main results

* `Layout.mem_inside` — every function in a tree is written by a run of its statements.
* `spans_of_compile` — the lines of every block in the tree of a text.
* `functions_pairwise` — functions directly inside one block stand one behind the other.
-/

namespace ScriptDebugger

theorem Location.Before.line_le {a b : Location} (h : Before a b) : a.line ≤ b.line := by
  rcases h with hlt | ⟨heq, -⟩
  · omega
  · omega

namespace Source

/-! ## Statements and their lines -/

namespace Statement

/-- A statement stands on one of the lines. -/
theorem line_lt_of_mem_ofLines {line : Nat} {rows : List (List Char)} {s : Statement}
    (h : s ∈ ofLines line rows) : s.location.line < line + rows.length := by
  induction rows generalizing line with
  | nil => cases h
  | cons cs rest ih =>
      rw [ofLines] at h
      rw [List.length_cons]
      rcases List.mem_append.1 h with h | h
      · have hline := (ofLine_ordered line cs).2 s h
        omega
      · have hrest := ih h
        omega

/-- A statement of a text stands on one of its lines. -/
theorem line_of_mem_split {source : String} {s : Statement} (h : s ∈ split source) :
    1 ≤ s.location.line ∧ s.location.line ≤ (Text.lines source).length := by
  have hfirst := (ofLines_ordered 1 (Text.lines source)).2 s h
  have hlast := line_lt_of_mem_ofLines h
  omega

end Statement

/-- So does what it is read as. -/
theorem line_of_mem_commands {source : String} {c : Location × Command}
    (h : c ∈ commands (Statement.split source)) :
    1 ≤ c.1.line ∧ c.1.line ≤ (Text.lines source).length := by
  obtain ⟨s, hs, hread⟩ := List.mem_filterMap.1 h
  cases hcommand : Command.ofStatement s with
  | error fault =>
      rw [hcommand] at hread
      cases hread
  | ok command =>
      rw [hcommand] at hread
      obtain rfl := Option.some.inj hread
      exact Statement.line_of_mem_split hs

/-! ## Functions of a tree -/

namespace Layout

/-- The function that is written by its `function` statement, a body and its `end`. -/
def block (start : Location) (name : String) (params : List String) (body : Layout)
    (finish : Location) : Block :=
  ⟨some name, params, start, finish.line - start.line + 1, body.code ++ [⟨.ret, finish⟩],
    body.functions⟩

/-- The instructions of a layout stand where its statements do. -/
theorem mem_written_of_mem_code {layout : Layout} {i : Instruction} (h : i ∈ layout.code) :
    ∃ command, (i.location, command) ∈ layout.written := by
  induction layout with
  | nil => cases h
  | plain before location command hplain ih =>
      rcases List.mem_append.1 h with h | h
      · obtain ⟨other, hother⟩ := ih h
        exact ⟨other, List.mem_append_left _ hother⟩
      · obtain ⟨op, -, rfl⟩ := List.mem_map.1 h
        exact ⟨command, List.mem_append_right _ List.mem_cons_self⟩
  | function before start name params body finish ih ihbody =>
      obtain ⟨other, hother⟩ := ih h
      exact ⟨other, List.mem_append_left _ hother⟩

/-- Every function in the tree of a layout is written by a run of its statements. -/
theorem mem_inside {layout : Layout} {f b : Block} (hb : b.functions = layout.functions)
    (h : f.Inside b) :
    ∃ start name params body finish, f = block start name params body finish ∧
      ((start, .function name params) :: (body.written ++ [(finish, .finish)])).Sublist
        layout.written := by
  induction h generalizing layout with
  | direct h =>
      rw [hb] at h
      exact Layout.mem_functions h
  | deeper hg h ih =>
      rw [hb] at hg
      obtain ⟨start, name, params, body, finish, rfl, hsub⟩ := Layout.mem_functions hg
      have hbody : (block start name params body finish).functions = body.functions := rfl
      obtain ⟨start', name', params', body', finish', hf, hinner⟩ := ih hbody
      refine ⟨start', name', params', body', finish', hf, hinner.trans ?_⟩
      apply List.Sublist.trans _ hsub
      exact (List.sublist_append_left _ _).trans (List.sublist_cons_self _ _)

section

variable {start finish : Location} {name : String} {params : List String} {body : Layout}
  (h : ((start, .function name params) :: (body.written ++ [(finish, Command.finish)])).Pairwise
    fun c d => Location.Before c.1 d.1)

include h

/-- A function does not end before it starts. -/
theorem start_le_finish : start.line ≤ finish.line := by
  have hfinish : ((finish, Command.finish) : Location × Command) ∈
      body.written ++ [(finish, .finish)] := List.mem_append_right _ List.mem_cons_self
  exact ((List.pairwise_cons.1 h).1 _ hfinish).line_le

/-- What a function holds stands on its lines. -/
theorem line_of_mem_block {i : Instruction}
    (hi : i ∈ (block start name params body finish).code) :
    start.line ≤ i.location.line ∧ i.location.line ≤ finish.line := by
  obtain ⟨hbehind, hinside⟩ := List.pairwise_cons.1 h
  rcases List.mem_append.1 hi with hi | hi
  · obtain ⟨command, hwritten⟩ := mem_written_of_mem_code hi
    have hstart := hbehind _ (List.mem_append_left _ hwritten)
    have hfinish := (List.pairwise_append.1 hinside).2.2 _ hwritten _ List.mem_cons_self
    exact ⟨hstart.line_le, hfinish.line_le⟩
  · obtain rfl := List.mem_singleton.1 hi
    exact ⟨start_le_finish h, Nat.le_refl _⟩

end

/-- Functions directly inside one block stand one behind the other: one starts no earlier than the
last line of those before it. -/
theorem functions_pairwise {layout : Layout}
    (h : layout.written.Pairwise fun c d => Location.Before c.1 d.1) :
    layout.functions.Pairwise fun f g => f.start.line + f.lineCount ≤ g.start.line + 1 := by
  induction layout with
  | nil => exact .nil
  | plain before location command hplain ih => exact ih (List.pairwise_append.1 h).1
  | function before start name params body finish ih ihbody =>
      obtain ⟨hbefore, -, hacross⟩ := List.pairwise_append.1 h
      rw [functions, List.pairwise_append]
      refine ⟨ih hbefore, List.pairwise_singleton _ _, ?_⟩
      intro f hf g hg
      obtain rfl := List.mem_singleton.1 hg
      obtain ⟨start', name', params', body', finish', rfl, hsub⟩ := Layout.mem_functions hf
      have hends : ((finish', Command.finish) : Location × Command) ∈ before.written := by
        apply hsub.subset
        apply List.mem_cons_of_mem
        exact List.mem_append_right _ List.mem_cons_self
      have hbehind := (hacross _ hends _ List.mem_cons_self).line_le
      have hordered := start_le_finish (hbefore.sublist hsub)
      show start'.line + (finish'.line - start'.line + 1) ≤ start.line + 1
      have hline : finish'.line ≤ start.line := hbehind
      omega

end Layout

/-! ## The tree of a text -/

/-- A block in the tree of a module: the module, or a function inside it. -/
def Block.Within (b module : Block) : Prop := b = module ∨ b.Inside module

/-- The block has the lines up to `last`. -/
structure Spans (source : String) (b : Block) (last : Nat) : Prop where
  /-- The module starts on the first line and goes to the last one of the text. A function goes from
  its `function` statement to its `end`, which is its last instruction. -/
  ends : b.name = none ∧ b.start.line = 1 ∧ last = (Text.lines source).length ∨
    ∃ name finish, b.name = some name ∧
      (b.start, .function name b.params) ∈ commands (Statement.split source) ∧
      (finish, .finish) ∈ commands (Statement.split source) ∧
      b.code.getLast? = some ⟨.ret, finish⟩ ∧ last = finish.line
  /-- The lines are counted with the first and the last one. -/
  count : b.start.line + b.lineCount = last + 1
  /-- All that is done stands on these lines. -/
  inside : ∀ i ∈ b.code, b.start.line ≤ i.location.line ∧ i.location.line ≤ last

section

variable {source : String} {module b : Block} (h : compile source = .ok module)
  (hb : b.Within module)

include h hb

/-- The lines of every block in the tree of a text. -/
theorem spans_of_compile : ∃ last, Spans source b last := by
  obtain ⟨-, layout, hwritten, -, rfl⟩ := compile_ok h
  have hordered := commands_ordered source
  rcases hb with rfl | hinside
  · refine ⟨(Text.lines source).length, Or.inl ⟨rfl, rfl, rfl⟩, Nat.add_comm _ _, ?_⟩
    intro i hi
    obtain ⟨command, hi⟩ := Layout.mem_written_of_mem_code hi
    rw [hwritten] at hi
    exact line_of_mem_commands hi
  · obtain ⟨start, name, params, body, finish, rfl, hsub⟩ := Layout.mem_inside rfl hinside
    rw [hwritten] at hsub
    have hrun := hordered.sublist hsub
    refine ⟨finish.line, Or.inr ⟨name, finish, rfl, ?_, ?_, ?_, rfl⟩, ?_, ?_⟩
    · exact hsub.subset List.mem_cons_self
    · apply hsub.subset
      apply List.mem_cons_of_mem
      exact List.mem_append_right _ List.mem_cons_self
    · exact List.getLast?_concat
    · have hlines := Layout.start_le_finish hrun
      show start.line + (finish.line - start.line + 1) = finish.line + 1
      omega
    · intro i hi
      exact Layout.line_of_mem_block hrun hi

/-- Functions directly inside one block of a text stand one behind the other. -/
theorem functions_pairwise :
    b.functions.Pairwise fun f g => f.start.line + f.lineCount ≤ g.start.line + 1 := by
  obtain ⟨-, layout, hwritten, -, rfl⟩ := compile_ok h
  have hordered := commands_ordered source
  rw [← hwritten] at hordered
  rcases hb with rfl | hinside
  · exact Layout.functions_pairwise hordered
  · obtain ⟨start, name, params, body, finish, rfl, hsub⟩ := Layout.mem_inside rfl hinside
    have hrun := (List.pairwise_cons.1 (hordered.sublist hsub)).2
    exact Layout.functions_pairwise (List.pairwise_append.1 hrun).1

end

end Source

end ScriptDebugger
