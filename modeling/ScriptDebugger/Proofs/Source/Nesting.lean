import ScriptDebugger.Source.Compile
/-!
# Functions in each other

A `function` statement and the `end` that closes it are a pair of brackets. How deep a statement
stands is a sum over the statements before it, and statements are balanced if no sum is negative
and the last one is zero.

Balanced statements are written out by a tree of their own, a `Layout`, which has for each block
what stands directly inside it. Layouts grow at their end, as a text is read. What ties the tree to
the sums is that a balanced run of statements cannot begin before a function that is still open at
its end (`Declared.behind_open`): so the functions that balanced runs up to some place begin with
are those directly inside the block that is open there.

## Main results

* `Layout.balanced` — a layout writes balanced statements.
* `Layout.declared_written_iff` — the functions directly inside a block are those from which a
  balanced run leads to its end.
* `Layout.Distinct.not_declared` — in a tree without two functions of one name in a block, no
  function has a name that is declared where it starts.
-/

namespace ScriptDebugger.Source

/-! ## Brackets -/

/-- How many functions a statement opens, less those that it closes. -/
def Command.turn : Command → Int
  | .function _ _ => 1
  | .finish => -1
  | _ => 0

/-- How many more functions statements open than they close. -/
def depth : List (Location × Command) → Int
  | [] => 0
  | c :: rest => c.2.turn + depth rest

/-- Statements that close what they open, and only that. -/
structure Balanced (cs : List (Location × Command)) : Prop where
  /-- Every function is closed. -/
  closed : depth cs = 0
  /-- No `end` closes a function that was not opened before it. -/
  covered : ∀ front back, cs = front ++ back → 0 ≤ depth front

section

variable {cs ds before behind inside : List (Location × Command)} {start finish : Location}
  {name : String} {params : List String}

@[simp]
theorem depth_append (cs ds : List (Location × Command)) :
    depth (cs ++ ds) = depth cs + depth ds := by
  induction cs with
  | nil => simp [depth]
  | cons c rest ih =>
      rw [List.cons_append, depth, depth, ih]
      omega

@[simp]
theorem depth_function :
    depth ((start, .function name params) :: cs) = 1 + depth cs := rfl

@[simp]
theorem depth_finish : depth ((finish, .finish) :: cs) = -1 + depth cs := rfl

/-- Statements that go on with one more one are cut behind it, or in what was there before. -/
theorem cut_append_singleton {c : Location × Command} (h : cs ++ [c] = before ++ behind) :
    behind = [] ∧ before = cs ++ [c] ∨ ∃ rest, behind = rest ++ [c] ∧ cs = before ++ rest := by
  rcases List.eq_nil_or_concat behind with rfl | ⟨rest, d, rfl⟩
  · exact .inl ⟨rfl, by rw [h, List.append_nil]⟩
  · rw [List.concat_eq_append, ← List.append_assoc] at h
    obtain ⟨hcs, hc⟩ := List.append_inj' h rfl
    rw [List.concat_eq_append, List.singleton_inj.1 hc]
    exact .inr ⟨rest, rfl, hcs⟩

/-- A statement that is not the last one stands in what was there before. -/
theorem cut_before_last {c last : Location × Command} (h : cs ++ [last] = before ++ c :: behind)
    (hne : c ≠ last) : ∃ rest, behind = rest ++ [last] ∧ cs = before ++ c :: rest := by
  rcases cut_append_singleton h with ⟨hnil, -⟩ | ⟨rest, hrest, hcs⟩
  · cases hnil
  · cases rest with
    | nil => exact absurd (List.cons.inj hrest).1 hne
    | cons d rest =>
        obtain ⟨rfl, rfl⟩ := List.cons.inj hrest
        exact ⟨rest, rfl, hcs⟩

theorem function_ne_plain {location : Location} {command : Command} (hplain : command.turn = 0) :
    (start, Command.function name params) ≠ (location, command) := by
  intro h
  rw [← (Prod.mk.inj h).2] at hplain
  cases hplain

/-- Of two statements of one list, they are the same one, or one stands behind the other. -/
theorem cut_cons {c d : Location × Command} (h : cs ++ c :: inside = before ++ d :: behind) :
    (cs = before ∧ c = d ∧ inside = behind) ∨
      (∃ more, before = cs ++ c :: more ∧ inside = more ++ d :: behind) ∨
      ∃ more, cs = before ++ d :: more ∧ behind = more ++ c :: inside := by
  rcases List.append_eq_append_iff.1 h with ⟨more, hbefore, hmore⟩ | ⟨more, hcs, hmore⟩
  · cases more with
    | nil =>
        obtain ⟨rfl, rfl⟩ := List.cons.inj hmore
        exact .inl ⟨by rw [hbefore, List.append_nil], rfl, rfl⟩
    | cons e more =>
        obtain ⟨rfl, rfl⟩ := List.cons.inj hmore
        exact .inr (.inl ⟨more, hbefore, rfl⟩)
  · cases more with
    | nil =>
        obtain ⟨rfl, rfl⟩ := List.cons.inj hmore
        exact .inl ⟨by rw [hcs, List.append_nil], rfl, rfl⟩
    | cons e more =>
        obtain ⟨rfl, rfl⟩ := List.cons.inj hmore
        exact .inr (.inr ⟨more, hcs, rfl⟩)

theorem Balanced.nil : Balanced [] where
  closed := rfl
  covered before behind h := by
    rw [(List.nil_eq_append_iff.1 h).1]
    exact Int.le_refl 0

/-- A front that is as deep as the whole is balanced too. -/
theorem Balanced.of_append (h : Balanced (cs ++ ds)) (hdepth : depth cs = 0) : Balanced cs where
  closed := hdepth
  covered before behind hsplit :=
    h.covered before (behind ++ ds) (by rw [hsplit, List.append_assoc])

/-- One more statement that is no bracket. -/
theorem Balanced.plain (h : Balanced cs) {location : Location} {command : Command}
    (hplain : command.turn = 0) : Balanced (cs ++ [(location, command)]) := by
  have hclosed : depth (cs ++ [(location, command)]) = 0 := by
    rw [depth_append, h.closed, depth, hplain]
    rfl
  refine ⟨hclosed, fun before behind hsplit => ?_⟩
  rcases cut_append_singleton hsplit with ⟨-, rfl⟩ | ⟨rest, -, hrest⟩
  · exact Int.le_of_eq hclosed.symm
  · exact h.covered before rest hrest

/-- One more function. -/
theorem Balanced.function (h : Balanced cs) (hinside : Balanced inside) :
    Balanced (cs ++ (start, .function name params) :: (inside ++ [(finish, .finish)])) := by
  have hbody : depth (inside ++ [(finish, .finish)]) = -1 := by
    rw [depth_append, hinside.closed]
    rfl
  constructor
  · rw [depth_append, depth_function, h.closed, hbody]
    rfl
  · intro before behind hsplit
    rcases List.append_eq_append_iff.1 hsplit with ⟨more, rfl, hmore⟩ | ⟨more, hbefore, -⟩
    · rw [depth_append, h.closed]
      cases more with
      | nil => exact Int.le_refl 0
      | cons c more =>
          -- the cut is behind the function statement, at most one deeper than before its end
          simp only [List.cons_append, List.cons.injEq] at hmore
          obtain ⟨rfl, hmore⟩ := hmore
          rw [depth_function]
          rcases cut_append_singleton hmore with ⟨-, rfl⟩ | ⟨rest, -, hrest⟩
          · omega
          · have hcovered := hinside.covered more rest hrest
            omega
    · exact h.covered before more hbefore

/-- In balanced statements no function is left open. -/
theorem Balanced.not_open (h : Balanced (before ++ (start, .function name params) :: inside)) :
    depth inside ≠ 0 := by
  intro hinside
  have hbefore := h.covered before _ rfl
  have hclosed := h.closed
  rw [depth_append, depth_function, hinside] at hclosed
  omega

/-- Directly inside the block that is open behind some statements, there is a function of this name:
a balanced run begins with it and goes on to their end. -/
def Declared (cs : List (Location × Command)) (name : String) : Prop :=
  ∃ before start params run, cs = before ++ (start, .function name params) :: run ∧
    Balanced ((start, .function name params) :: run)

theorem Declared.append_left {name : String} (h : Declared ds name) : Declared (cs ++ ds) name := by
  obtain ⟨before, start, params, run, rfl, hrun⟩ := h
  exact ⟨cs ++ before, start, params, run, (List.append_assoc _ _ _).symm, hrun⟩

/-- A balanced run cannot begin before a function that is open at its end. -/
theorem Declared.behind_open {other : String}
    (h : Declared (before ++ (start, .function name params) :: inside) other)
    (hinside : 0 ≤ depth inside) : Declared inside other := by
  obtain ⟨front, first, others, run, hsplit, hrun⟩ := h
  have hclosed := hrun.closed
  rw [depth_function] at hclosed
  rcases cut_cons hsplit with ⟨-, -, rfl⟩ | ⟨more, -, rfl⟩ | ⟨more, -, rfl⟩
  · omega
  · exact ⟨more, first, others, run, rfl, hrun⟩
  · have hmore := hrun.covered ((first, .function other others) :: more) _ rfl
    rw [depth_function] at hmore
    rw [depth_append, depth_function] at hclosed
    omega

end

/-! ## Layouts -/

/-- The instructions that a statement makes in the block that it stands in. -/
def Command.ops : Command → List Op
  | .assign binding name value => [.load value, .store binding name]
  | .call name args => [.call name args]
  | .defer name args => [.defer name args]
  | .print value => [.print value]
  | .function _ _ => []
  | .finish => [.ret]

/-- What stands directly inside a block, in the order of the text. -/
inductive Layout
  /-- Nothing yet. -/
  | nil
  /-- One more statement that is no bracket. -/
  | plain (before : Layout) (location : Location) (command : Command) (hplain : command.turn = 0)
  /-- One more function, from its `function` statement to its `end`. -/
  | function (before : Layout) (start : Location) (name : String) (params : List String)
    (body : Layout) (finish : Location)

namespace Layout

/-- The statements of a layout. -/
def written : Layout → List (Location × Command)
  | nil => []
  | plain before location command _ => before.written ++ [(location, command)]
  | function before start name params body finish =>
    before.written ++ (start, .function name params) :: (body.written ++ [(finish, .finish)])

/-- The instructions of the statements directly inside. -/
def code : Layout → List Instruction
  | nil => []
  | plain before location command _ => before.code ++ command.ops.map (⟨·, location⟩)
  | function before _ _ _ _ _ => before.code

/-- The functions directly inside: each has the code of its own layout and the return at its end,
and takes the lines from its `function` statement to its `end`. -/
def functions : Layout → List Block
  | nil => []
  | plain before _ _ _ => before.functions
  | function before start name params body finish =>
    before.functions ++
      [⟨some name, params, start, finish.line - start.line + 1,
        body.code ++ [⟨.ret, finish⟩], body.functions⟩]

/-- The names of the functions directly inside. -/
def names : Layout → List String
  | nil => []
  | plain before _ _ _ => before.names
  | function before _ name _ _ _ => before.names ++ [name]

/-- No block has two functions of one name directly inside. -/
def Distinct : Layout → Prop
  | nil => True
  | plain before _ _ _ => before.Distinct
  | function before _ name _ body _ => before.Distinct ∧ body.Distinct ∧ name ∉ before.names

theorem balanced (layout : Layout) : Balanced layout.written := by
  induction layout with
  | nil => exact Balanced.nil
  | plain before location command hplain ih => exact ih.plain hplain
  | function before start name params body finish ih ihbody => exact ih.function ihbody

theorem depth_written (layout : Layout) : depth layout.written = 0 := layout.balanced.closed

/-- Only the `end` of a function makes a return. -/
theorem op_ne_ret {layout : Layout} {i : Instruction} (h : i ∈ layout.code) : i.op ≠ .ret := by
  induction layout with
  | nil => cases h
  | plain before location command hplain ih =>
      rcases List.mem_append.1 h with h | h
      · exact ih h
      · obtain ⟨op, hop, rfl⟩ := List.mem_map.1 h
        rintro rfl
        cases command <;> simp [Command.ops, Command.turn] at hop hplain
  | function before start name params body finish ih ihbody => exact ih h

/-- The names of a layout are those of its blocks. -/
theorem any_functions (layout : Layout) (name : String) :
    layout.functions.any (·.name == some name) = decide (name ∈ layout.names) := by
  induction layout with
  | nil => rfl
  | plain before location command hplain ih => exact ih
  | function before start other params body finish ih ihbody =>
      rw [functions, names, List.any_append, ih, Bool.eq_iff_iff]
      simp [@eq_comm _ name other]

section

variable {layout : Layout} {start : Location} {name : String} {params : List String}
  {front back : List (Location × Command)}

/-- The functions directly inside the open block are those of its layout. -/
theorem declared_written_iff : Declared layout.written name ↔ name ∈ layout.names := by
  constructor
  · rintro ⟨front, start, params, run, hsplit, hrun⟩
    have hclosed := hrun.closed
    rw [depth_function] at hclosed
    induction layout generalizing run with
    | nil => exact absurd hsplit.symm (by simp [written])
    | plain before location command hplain ih =>
        obtain ⟨run, rfl, hfront⟩ := cut_before_last hsplit (function_ne_plain hplain)
        have hdepth : 1 + depth run = 0 := by
          rw [depth_append, depth, hplain, depth] at hclosed
          omega
        rw [← List.cons_append] at hrun
        exact ih run hfront (hrun.of_append hdepth) hdepth
    | function before first other others body finish ih ihbody =>
        rw [written, ← List.cons_append, ← List.append_assoc] at hsplit
        obtain ⟨run, rfl, hfront⟩ := cut_before_last hsplit (by simp)
        rw [depth_append, depth_finish, depth] at hclosed
        rcases cut_cons hfront with ⟨-, hsame, -⟩ | ⟨more, -, hbody⟩ | ⟨more, hbefore, rfl⟩
        · obtain ⟨-, rfl, -⟩ : _ ∧ other = name ∧ _ := by simpa using hsame
          exact List.mem_append_right _ (List.mem_singleton_self other)
        · -- the run would begin inside the last function and end behind it
          have hcovered := body.balanced.covered more _ hbody
          have hdepth := body.depth_written
          rw [hbody, depth_append, depth_function] at hdepth
          omega
        · have hdepth : 1 + depth more = 0 := by
            rw [depth_append, depth_function, body.depth_written] at hclosed
            omega
          rw [List.append_assoc, ← List.cons_append] at hrun
          exact List.mem_append_left _ (ih more hbefore (hrun.of_append hdepth) hdepth)
  · intro hname
    induction layout with
    | nil => cases hname
    | plain before location command hplain ih =>
        obtain ⟨front, start, params, run, hsplit, hrun⟩ := ih hname
        refine ⟨front, start, params, run ++ [(location, command)], ?_, hrun.plain hplain⟩
        rw [written, hsplit, List.append_assoc, List.cons_append]
    | function before first other others body finish ih ihbody =>
        rcases List.mem_append.1 hname with hname | hname
        · obtain ⟨front, start, params, run, hsplit, hrun⟩ := ih hname
          refine ⟨front, start, params,
            run ++ (first, .function other others) :: (body.written ++ [(finish, .finish)]), ?_, ?_⟩
          · rw [written, hsplit, List.append_assoc, List.cons_append]
          · exact hrun.function body.balanced
        · obtain rfl := List.mem_singleton.1 hname
          exact ⟨before.written, first, others, _, rfl, Balanced.nil.function body.balanced⟩

/-- Names that differ in each block of the tree differ wherever a balanced run leads from one
function to another. -/
theorem Distinct.not_declared (h : layout.Distinct)
    (hsplit : layout.written = front ++ (start, .function name params) :: back) :
    ¬Declared front name := by
  induction layout generalizing front back with
  | nil => exact absurd hsplit.symm (by simp [written])
  | plain before location command hplain ih =>
      obtain ⟨back, -, hfront⟩ := cut_before_last hsplit (function_ne_plain hplain)
      exact ih h hfront
  | function before first other others body finish ih ihbody =>
      obtain ⟨hbefore, hbody, hother⟩ := h
      rw [written, ← List.cons_append, ← List.append_assoc] at hsplit
      obtain ⟨back, -, hfront⟩ := cut_before_last hsplit (by simp)
      rcases cut_cons hfront with ⟨rfl, hsame, -⟩ | ⟨more, rfl, hmore⟩ | ⟨more, hmore, -⟩
      · obtain ⟨-, rfl, -⟩ : _ ∧ other = name ∧ _ := by simpa using hsame
        rw [declared_written_iff]
        exact hother
      · intro hdeclared
        exact ihbody hbody hmore (hdeclared.behind_open (body.balanced.covered more _ hmore))
      · exact ih hbefore hmore

end

end Layout

end ScriptDebugger.Source
