import Mathlib.Data.List.Induction
import ScriptDebugger.Proofs.Machine.StatementStarts
import ScriptDebugger.Proofs.Source.Nesting
/-!
# Which texts compile, and to what

A text compiles just if each of its statements can be read, its `function` and `end` statements are
balanced, and no two functions directly inside one block have one name. The block is then the tree
that the text writes out. Otherwise the fault is that of the first statement that breaks a rule, or
else of the innermost function that is never closed.

Behind any number of statements that break no rule, the compiler has the blocks of an `Unfinished`
tree: the layouts of the open functions in each other. The statements read so far are what that tree
writes. One lemma a command says what it becomes, and which commands break a rule is read off it.

## Main results

* `Unfinished.add_error_iff`, `Unfinished.add_ok` — a statement is refused just if it breaks a rule,
  and otherwise the tree goes on with it.
* `addAll_faultless`, `addAll_breaks` — what becomes of all statements.
* `compile_wellNested` — which texts compile, what the others are answered, and what the block is.
-/

namespace ScriptDebugger.Source

open Block (emptyModule emptyFunction)

theorem commands_append (front back : List Statement) :
    commands (front ++ back) = commands front ++ commands back :=
  List.filterMap_append

theorem commands_cons {s : Statement} {command : Command}
    (hread : Command.ofStatement s = .ok command) (rest : List Statement) :
    commands (s :: rest) = (s.location, command) :: commands rest := by
  rw [commands, List.filterMap_cons, hread]
  rfl

/-! ## Faults -/

/-- A statement breaks a rule behind others that break none. -/
inductive Breaks (front : List (Location × Command)) (s : Statement) : Fault → Prop
  /-- It cannot be read. -/
  | unread {fault : Fault} (hread : Command.ofStatement s = .error fault) : Breaks front s fault
  /-- It is an `end`, and every function before it is closed. -/
  | unmatched (hread : Command.ofStatement s = .ok .finish) (hfront : Balanced front) :
    Breaks front s (.unmatchedEnd s.location.line)
  /-- It is the `end` of a function with a name that is declared where that function starts. -/
  | duplicate {before inside : List (Location × Command)} {start : Location} {name : String}
    {params : List String} (hread : Command.ofStatement s = .ok .finish)
    (hfront : front = before ++ (start, .function name params) :: inside)
    (hinside : Balanced inside) (hname : Declared before name) :
    Breaks front s (.duplicateFunction start.line name)

/-- No statement breaks a rule. -/
def Faultless (statements : List Statement) : Prop :=
  ∀ front s back fault, statements = front ++ s :: back → ¬Breaks (commands front) s fault

/-- The fault of statements that are no program. -/
inductive FirstFault (statements : List Statement) : Fault → Prop
  /-- That of the first statement that breaks a rule. -/
  | breaks {front back : List Statement} {s : Statement} {fault : Fault}
    (hsplit : statements = front ++ s :: back) (hfront : Faultless front)
    (hbreaks : Breaks (commands front) s fault) : FirstFault statements fault
  /-- Where none does, that of the innermost function that is open in the end. -/
  | unclosed {before inside : List (Location × Command)} {start : Location} {name : String}
    {params : List String} (hfaultless : Faultless statements)
    (hsplit : commands statements = before ++ (start, .function name params) :: inside)
    (hinside : Balanced inside) :
    FirstFault statements (.unclosedFunction start.line name)

/-! ## Unfinished trees -/

/-- The layouts of the functions that are open, in each other. -/
inductive Unfinished
  | module (inside : Layout)
  | function (around : Unfinished) (start : Location) (name : String) (params : List String)
    (inside : Layout)

namespace Unfinished

/-- The layout of the innermost open block. -/
def inside : Unfinished → Layout
  | module inside => inside
  | function _ _ _ _ inside => inside

/-- The same blocks around another layout. -/
def replace : Unfinished → Layout → Unfinished
  | module _, layout => module layout
  | function around start name params _, layout => function around start name params layout

/-- The statements up to the one that opens the innermost function. -/
def front : Unfinished → List (Location × Command)
  | module _ => []
  | function around start name params _ =>
    around.front ++ around.inside.written ++ [(start, .function name params)]

/-- All the statements. -/
def written (p : Unfinished) : List (Location × Command) := p.front ++ p.inside.written

/-- No block has two functions of one name directly inside. -/
def Distinct : Unfinished → Prop
  | module inside => inside.Distinct
  | function around _ _ _ inside => around.Distinct ∧ inside.Distinct

/-- The innermost open block. -/
def block (lineCount : Nat) : Unfinished → Block
  | module inside =>
    { emptyModule lineCount with code := inside.code, functions := inside.functions }
  | function _ start name params inside =>
    { emptyFunction name params start with code := inside.code, functions := inside.functions }

/-- The blocks around it, from the inside out. -/
def outer (lineCount : Nat) : Unfinished → List Block
  | module _ => []
  | function around _ _ _ _ => around.block lineCount :: around.outer lineCount

/-- What the compiler has. -/
def nest (lineCount : Nat) (p : Unfinished) : Nest := ⟨p.block lineCount, p.outer lineCount⟩

section

variable {p around : Unfinished} {layout body : Layout} {lineCount : Nat} {start : Location}
  {name : String} {params : List String}

@[simp]
theorem front_replace : (p.replace layout).front = p.front := by cases p <;> rfl

@[simp]
theorem inside_replace : (p.replace layout).inside = layout := by cases p <;> rfl

theorem written_replace : (p.replace layout).written = p.front ++ layout.written := by
  rw [written, front_replace, inside_replace]

theorem written_function : (function around start name params body).written =
    around.written ++ (start, .function name params) :: body.written := by
  show around.front ++ around.inside.written ++ [(start, .function name params)] ++ body.written = _
  rw [written, List.append_assoc, List.singleton_append]

theorem Distinct.inside (h : p.Distinct) : p.inside.Distinct := by
  cases p with
  | module body => exact h
  | function around start name params body => exact h.2

theorem Distinct.replace (h : p.Distinct) (hlayout : layout.Distinct) :
    (p.replace layout).Distinct := by
  cases p with
  | module body => exact hlayout
  | function around start name params body => exact ⟨h.1, hlayout⟩

/-- Where a function is open, the statements are not balanced. -/
theorem not_balanced_function : ¬Balanced (function around start name params body).written := by
  intro h
  rw [written_function] at h
  exact h.not_open body.depth_written

/-- The functions directly inside the innermost open block. -/
theorem declared_written_iff : Declared p.written name ↔ name ∈ p.inside.names := by
  rw [← Layout.declared_written_iff]
  constructor
  · intro h
    cases p with
    | module body => exact h
    | function around start other params body =>
        rw [written_function] at h
        exact h.behind_open (Int.le_of_eq body.depth_written.symm)
  · exact Declared.append_left

/-- The innermost function that is open is the one behind which the statements are balanced. -/
theorem innermost {before behind : List (Location × Command)} {start' : Location} {name' : String}
    {params' : List String}
    (h : (function around start name params body).written =
      before ++ (start', .function name' params') :: behind) (hbehind : Balanced behind) :
    before = around.written ∧ start' = start ∧ name' = name := by
  rw [written_function] at h
  rcases cut_cons h with ⟨rfl, hsame, -⟩ | ⟨more, -, hmore⟩ | ⟨more, -, hmore⟩
  · obtain ⟨rfl, rfl, -⟩ : start = start' ∧ name = name' ∧ _ := by simpa using hsame
    exact ⟨rfl, rfl, rfl⟩
  · have hbody := body.balanced
    rw [hmore] at hbody
    exact absurd hbehind.closed hbody.not_open
  · rw [hmore] at hbehind
    exact absurd body.depth_written hbehind.not_open

/-! ## One more statement -/

theorem functions_block : (p.block lineCount).functions = p.inside.functions := by
  cases p <;> rfl

/-- A statement that is no bracket goes into the innermost block. -/
theorem apply_plain {location : Location} {command : Command} (hplain : command.turn = 0) :
    (p.nest lineCount).apply location command =
      .ok ((p.replace (p.inside.plain location command hplain)).nest lineCount) := by
  have hops : (p.nest lineCount).apply location command =
      .ok ((p.nest lineCount).emit command.ops location) := by
    cases command with
    | function name params => cases hplain
    | finish => cases hplain
    | _ => rfl
  rw [hops]
  cases p <;> rfl

/-- The end of the innermost function. -/
theorem close_function (finish : Location) :
    ((function around start name params body).nest lineCount).close finish =
      if name ∈ around.inside.names then .error (.duplicateFunction start.line name)
      else .ok ((around.replace
        (around.inside.function start name params body finish)).nest lineCount) := by
  have hany : (around.block lineCount).functions.any (·.name == some name) =
      decide (name ∈ around.inside.names) := by
    rw [functions_block, Layout.any_functions]
  by_cases hname : name ∈ around.inside.names
  · rw [decide_eq_true hname] at hany
    rw [if_pos hname]
    exact if_pos hany
  · rw [decide_eq_false hname] at hany
    rw [if_neg hname]
    have hnot : ¬(around.block lineCount).functions.any (·.name == some name) = true := by
      rw [hany]
      exact Bool.false_ne_true
    refine (if_neg hnot).trans ?_
    cases around <;> rfl

/-- The compiler refuses an `end` just if it breaks a rule. -/
theorem close_error_iff {s : Statement} {fault : Fault}
    (hread : Command.ofStatement s = .ok .finish) :
    (p.nest lineCount).close s.location = .error fault ↔ Breaks p.written s fault := by
  have hreadable : ∀ other, Command.ofStatement s ≠ .error other := by
    intro other hother
    cases hread.symm.trans hother
  cases p with
  | module body =>
      constructor
      · intro h
        obtain rfl : Fault.unmatchedEnd s.location.line = fault := Except.error.inj h
        exact .unmatched hread body.balanced
      · intro h
        cases h with
        | unread hother => exact absurd hother (hreadable _)
        | unmatched => rfl
        | duplicate _ hfront hinside _ =>
            have hbody : Balanced (module body).written := body.balanced
            rw [hfront] at hbody
            exact absurd hinside.closed hbody.not_open
  | function around start name params body =>
      rw [close_function]
      by_cases hname : name ∈ around.inside.names
      · rw [if_pos hname]
        constructor
        · intro h
          obtain rfl := Except.error.inj h
          exact .duplicate hread written_function body.balanced (declared_written_iff.2 hname)
        · intro h
          cases h with
          | unread hother => exact absurd hother (hreadable _)
          | unmatched _ hfront => exact absurd hfront not_balanced_function
          | duplicate _ hfront hinside _ =>
              obtain ⟨-, rfl, rfl⟩ := innermost hfront hinside
              rfl
      · rw [if_neg hname]
        constructor
        · intro h
          cases h
        · intro h
          cases h with
          | unread hother => exact absurd hother (hreadable _)
          | unmatched _ hfront => exact absurd hfront not_balanced_function
          | duplicate _ hfront hinside hdeclared =>
              obtain ⟨rfl, -, rfl⟩ := innermost hfront hinside
              exact absurd (declared_written_iff.1 hdeclared) hname

/-- The compiler refuses a statement just if it breaks a rule. -/
theorem add_error_iff {s : Statement} {fault : Fault} :
    (p.nest lineCount).add s = .error fault ↔ Breaks p.written s fault := by
  cases hread : Command.ofStatement s with
  | error other =>
      have hadd : (p.nest lineCount).add s = .error other := by
        rw [Nest.add, hread]
        rfl
      rw [hadd]
      constructor
      · intro h
        obtain rfl := Except.error.inj h
        exact .unread hread
      · intro h
        cases h with
        | unread hother => rw [Except.error.inj (hread.symm.trans hother)]
        | unmatched hother | duplicate hother => cases hread.symm.trans hother
  | ok command =>
      have hadd : (p.nest lineCount).add s = (p.nest lineCount).apply s.location command := by
        rw [Nest.add, hread]
        rfl
      rw [hadd]
      by_cases hfinish : command = .finish
      · subst hfinish
        exact close_error_iff hread
      · constructor
        · intro h
          cases command <;> first | exact absurd rfl hfinish | cases h
        · intro h
          cases h with
          | unread hother => cases hread.symm.trans hother
          | unmatched hother | duplicate hother =>
              exact absurd (Except.ok.inj (hread.symm.trans hother)) hfinish

/-- Otherwise it has the blocks of a larger tree. -/
theorem add_ok (hp : p.Distinct) {s : Statement} {next : Nest}
    (h : (p.nest lineCount).add s = .ok next) :
    ∃ q : Unfinished, next = q.nest lineCount ∧ q.Distinct ∧
      q.written = p.written ++ commands [s] := by
  unfold Nest.add at h
  cases hread : Command.ofStatement s with
  | error fault =>
      rw [hread] at h
      cases h
  | ok command =>
      rw [hread] at h
      have hcommands : commands [s] = [(s.location, command)] := commands_cons hread []
      rw [hcommands]
      by_cases hplain : command.turn = 0
      · obtain rfl := Except.ok.inj ((apply_plain hplain).symm.trans h)
        refine ⟨_, rfl, hp.replace hp.inside, ?_⟩
        rw [written_replace, Layout.written, ← List.append_assoc, written]
      · cases command with
        | function name params =>
            obtain rfl := Except.ok.inj h
            refine ⟨.function p s.location name params .nil, rfl, ⟨hp, trivial⟩, ?_⟩
            rw [written_function, Layout.written]
        | finish =>
            cases p with
            | module body => cases h
            | function around start name params body =>
                have hclose := (close_function s.location).symm.trans h
                split at hclose
                · cases hclose
                · rename_i hname
                  obtain rfl := Except.ok.inj hclose
                  refine ⟨_, rfl, hp.1.replace ⟨hp.1.inside, hp.2, hname⟩, ?_⟩
                  rw [written_replace, written_function, Layout.written, written]
                  simp
        | _ => exact absurd rfl hplain

end

end Unfinished

/-! ## All statements -/

section

variable {statements : List Statement} {lineCount : Nat}

/-- Before the first statement. -/
def initialNest (lineCount : Nat) : Nest := ⟨emptyModule lineCount, []⟩

theorem faultless_nil : Faultless [] := by
  intro front s back fault hsplit
  simp at hsplit

/-- One more statement that breaks no rule. -/
theorem Faultless.snoc (h : Faultless statements) {s : Statement}
    (hs : ∀ fault, ¬Breaks (commands statements) s fault) : Faultless (statements ++ [s]) := by
  intro front t back fault hsplit
  rcases List.eq_nil_or_concat back with rfl | ⟨back, u, rfl⟩
  · obtain ⟨rfl, ht⟩ := List.append_inj' hsplit rfl
    obtain rfl := List.singleton_inj.1 ht
    exact hs fault
  · rw [List.concat_eq_append, ← List.cons_append, ← List.append_assoc] at hsplit
    exact h front t back fault (List.append_inj_left' hsplit rfl)

/-- Statements that break no rule build a tree. -/
theorem addAll_faultless (h : Faultless statements) (lineCount : Nat) :
    ∃ p : Unfinished, p.Distinct ∧ p.written = commands statements ∧
      (initialNest lineCount).addAll statements = .ok (p.nest lineCount) := by
  induction statements using List.reverseRecOn with
  | nil => exact ⟨.module .nil, trivial, rfl, rfl⟩
  | append_singleton front s ih =>
      have hfront : Faultless front := by
        intro before t back fault hsplit
        exact h before t (back ++ [s]) fault (by rw [hsplit]; simp)
      obtain ⟨p, hp, hwritten, hall⟩ := ih hfront
      have hs : ∀ fault, (p.nest lineCount).add s ≠ .error fault := by
        intro fault hadd
        rw [Unfinished.add_error_iff, hwritten] at hadd
        exact h front s [] fault rfl hadd
      cases hadd : (p.nest lineCount).add s with
      | error fault => exact absurd hadd (hs fault)
      | ok next =>
          obtain ⟨q, rfl, hq, hgrown⟩ := Unfinished.add_ok hp hadd
          refine ⟨q, hq, by rw [hgrown, hwritten, commands_append], ?_⟩
          rw [Nest.addAll_append, hall]
          show ((p.nest lineCount).add s).bind _ = _
          rw [hadd]
          rfl

/-- The first statement that breaks a rule ends the work. -/
theorem addAll_breaks {front back : List Statement} {s : Statement} {fault : Fault}
    (hsplit : statements = front ++ s :: back) (hfront : Faultless front)
    (hbreaks : Breaks (commands front) s fault) (lineCount : Nat) :
    (initialNest lineCount).addAll statements = .error fault := by
  obtain ⟨p, -, hwritten, hall⟩ := addAll_faultless hfront lineCount
  rw [← hwritten] at hbreaks
  have hadd : (p.nest lineCount).add s = .error fault := Unfinished.add_error_iff.2 hbreaks
  rw [hsplit, Nest.addAll_append, hall]
  show ((p.nest lineCount).add s).bind _ = _
  rw [hadd]
  rfl

/-- Either no statement breaks a rule, or one of them is the first one. -/
theorem faultless_or_breaks (statements : List Statement) :
    Faultless statements ∨ ∃ front s back fault, statements = front ++ s :: back ∧
      Faultless front ∧ Breaks (commands front) s fault := by
  induction statements using List.reverseRecOn with
  | nil => exact .inl faultless_nil
  | append_singleton front s ih =>
      rcases ih with hfront | ⟨before, t, back, fault, rfl, hbefore, hbreaks⟩
      · by_cases hs : ∃ fault, Breaks (commands front) s fault
        · obtain ⟨fault, hs⟩ := hs
          exact .inr ⟨front, s, [], fault, rfl, hfront, hs⟩
        · exact .inl (hfront.snoc fun fault hfault => hs ⟨fault, hfault⟩)
      · exact .inr ⟨before, t, back ++ [s], fault, by simp, hbefore, hbreaks⟩

theorem compile_eq (source : String) :
    compile source =
      ((initialNest (Text.lines source).length).addAll (Statement.split source)).bind
        Nest.finish := rfl

/-- The fault of a text that does not compile. -/
theorem compile_error_iff {source : String} {fault : Fault} :
    compile source = .error fault ↔ FirstFault (Statement.split source) fault := by
  rw [compile_eq]
  rcases faultless_or_breaks (Statement.split source) with hfaultless |
      ⟨front, s, back, other, hsplit, hfront, hbreaks⟩
  · obtain ⟨p, hp, hwritten, hall⟩ := addAll_faultless hfaultless (Text.lines source).length
    rw [hall]
    constructor
    · intro h
      cases p with
      | module body => cases h
      | function around start name params body =>
          obtain rfl : Fault.unclosedFunction start.line name = fault := Except.error.inj h
          exact .unclosed hfaultless (hwritten.symm.trans Unfinished.written_function) body.balanced
    · intro h
      cases h with
      | breaks hsplit _ hbreaks => exact absurd hbreaks (hfaultless _ _ _ _ hsplit)
      | unclosed _ hopen hinside =>
          rw [← hwritten] at hopen
          cases p with
          | module body =>
              have hbody : Balanced (Unfinished.module body).written := body.balanced
              rw [hopen] at hbody
              exact absurd hinside.closed hbody.not_open
          | function around start name params body =>
              obtain ⟨-, rfl, rfl⟩ := Unfinished.innermost hopen hinside
              rfl
  · rw [addAll_breaks hsplit hfront hbreaks]
    constructor
    · intro h
      obtain rfl : other = fault := Except.error.inj h
      exact .breaks hsplit hfront hbreaks
    · intro h
      cases h with
      | breaks hsplit' hfront' hbreaks' =>
          have hall := addAll_breaks hsplit' hfront' hbreaks' (Text.lines source).length
          rw [addAll_breaks hsplit hfront hbreaks] at hall
          rw [Except.error.inj hall]
          rfl
      | unclosed hfaultless => exact absurd hbreaks (hfaultless _ _ _ _ hsplit)

end

/-! ## What a text compiles to -/

/-- Statements that are a program. -/
structure WellNested (statements : List Statement) : Prop where
  /-- Each of them can be read. -/
  readable : ∀ s ∈ statements, ∃ command, Command.ofStatement s = .ok command
  /-- Functions and their ends are balanced. -/
  balanced : Balanced (commands statements)
  /-- No function has the name of one before it directly inside the same block. -/
  distinct : ∀ front start name params back,
    commands statements = front ++ (start, .function name params) :: back → ¬Declared front name

/-- A function inside a block, directly or in a function there. -/
inductive Block.Inside (f : Block) : Block → Prop
  | direct {b : Block} (h : f ∈ b.functions) : Inside f b
  | deeper {g b : Block} (hg : g ∈ b.functions) (h : Inside f g) : Inside f b

/-- A function that ends at a place. -/
structure Block.EndsAt (f : Block) (finish : Location) : Prop where
  /-- The last instruction is the return of the end, and there is no other one. -/
  code : ∃ body, f.code = body ++ [⟨.ret, finish⟩] ∧ ∀ i ∈ body, i.op ≠ .ret
  /-- It does not end before it starts, so that its lines can be counted. -/
  ordered : f.start.line ≤ finish.line
  /-- It takes the lines from the first to the last one. -/
  lineCount : f.lineCount = finish.line - f.start.line + 1
  /-- At least it takes one. -/
  lineCount_pos : 1 ≤ f.lineCount

/-- The block that statements are. -/
structure Builds (cs : List (Location × Command)) (lineCount : Nat) (b : Block) : Prop where
  /-- Each block of its tree has the instructions of the statements that stand directly inside, and
  functions are nested as in the text. -/
  layout : ∃ layout : Layout, layout.written = cs ∧ layout.Distinct ∧
    b = ⟨none, [], ⟨1, 0⟩, lineCount, layout.code, layout.functions⟩
  /-- The module has no return. -/
  noReturn : ∀ i ∈ b.code, i.op ≠ .ret
  /-- Every function goes from its `function` statement to its end. -/
  functions : ∀ f : Block, f.Inside b → ∃ name finish, f.name = some name ∧
    (f.start, .function name f.params) ∈ cs ∧ (finish, .finish) ∈ cs ∧ f.EndsAt finish

theorem Layout.mem_functions {layout : Layout} {f : Block} (h : f ∈ layout.functions) :
    ∃ start name params, ∃ body : Layout, ∃ finish,
      f = ⟨some name, params, start, finish.line - start.line + 1, body.code ++ [⟨.ret, finish⟩],
        body.functions⟩ ∧
      ((start, .function name params) :: (body.written ++ [(finish, .finish)])).Sublist
        layout.written := by
  induction layout with
  | nil => cases h
  | plain before location command hplain ih =>
      obtain ⟨start, name, params, body, finish, hf, hsub⟩ := ih h
      exact ⟨start, name, params, body, finish, hf, hsub.trans (List.sublist_append_left _ _)⟩
  | function before start name params body finish ih ihbody =>
      rcases List.mem_append.1 h with h | h
      · obtain ⟨start, name, params, body, finish, hf, hsub⟩ := ih h
        exact ⟨start, name, params, body, finish, hf, hsub.trans (List.sublist_append_left _ _)⟩
      · exact ⟨start, name, params, body, finish, List.mem_singleton.1 h,
          List.sublist_append_right _ _⟩

/-- What every function in the tree of a layout is, where statements stand in order. -/
theorem Layout.endsAt {layout : Layout} {f b : Block}
    (hordered : layout.written.Pairwise fun c d => Location.Before c.1 d.1)
    (hb : b.functions = layout.functions) (h : f.Inside b) :
    ∃ name finish, f.name = some name ∧ (f.start, .function name f.params) ∈ layout.written ∧
      (finish, .finish) ∈ layout.written ∧ f.EndsAt finish := by
  induction h generalizing layout with
  | direct h =>
      rw [hb] at h
      obtain ⟨start, name, params, body, finish, rfl, hsub⟩ := Layout.mem_functions h
      have hends : ((finish, Command.finish) : Location × Command) ∈
          body.written ++ [(finish, .finish)] := List.mem_append_right _ List.mem_cons_self
      have hbefore := (List.pairwise_cons.1 (hordered.sublist hsub)).1 _ hends
      have hlines : start.line ≤ finish.line := by
        rcases hbefore with hlt | ⟨heq, -⟩
        · exact Nat.le_of_lt hlt
        · exact Nat.le_of_eq heq
      refine ⟨name, finish, rfl, hsub.subset List.mem_cons_self,
        hsub.subset (List.mem_cons_of_mem _ hends), ⟨body.code, rfl, fun i => Layout.op_ne_ret⟩,
        hlines, rfl, Nat.le_add_left 1 _⟩
  | deeper hg h ih =>
      rw [hb] at hg
      obtain ⟨start, name, params, body, finish, rfl, hsub⟩ := Layout.mem_functions hg
      have hinner : body.written.Sublist layout.written :=
        ((List.sublist_append_left _ _).trans (List.sublist_cons_self _ _)).trans hsub
      obtain ⟨name, finish, hname, hstart, hfinish, hends⟩ := ih (hordered.sublist hinner) rfl
      exact ⟨name, finish, hname, hinner.subset hstart, hinner.subset hfinish, hends⟩

theorem commands_ordered (source : String) :
    (commands (Statement.split source)).Pairwise fun c d => Location.Before c.1 d.1 := by
  have hsplit := Statement.split_ordered source
  rw [← List.pairwise_map (f := fun s : Statement => s.location)] at hsplit
  exact List.pairwise_map.1 (hsplit.sublist (Machine.commands_sublist _))

/-- A text that compiles builds the tree that it writes out. -/
theorem compile_ok {source : String} {module : Block} (h : compile source = .ok module) :
    Faultless (Statement.split source) ∧ ∃ layout : Layout,
      layout.written = commands (Statement.split source) ∧ layout.Distinct ∧
      module = ⟨none, [], ⟨1, 0⟩, (Text.lines source).length, layout.code, layout.functions⟩ := by
  rw [compile_eq] at h
  rcases faultless_or_breaks (Statement.split source) with hfaultless |
      ⟨front, s, back, fault, hsplit, hfront, hbreaks⟩
  · obtain ⟨p, hp, hwritten, hall⟩ := addAll_faultless hfaultless (Text.lines source).length
    rw [hall] at h
    cases p with
    | module body =>
        obtain rfl := Except.ok.inj h
        exact ⟨hfaultless, body, hwritten, hp, rfl⟩
    | function around start name params body => cases h
  · rw [addAll_breaks hsplit hfront hbreaks] at h
    cases h

/-- What breaks a rule is not well nested. -/
theorem WellNested.not_firstFault {statements : List Statement} (h : WellNested statements)
    {fault : Fault} : ¬FirstFault statements fault := by
  intro hfault
  cases hfault with
  | unclosed _ hopen hinside =>
      have hbalanced := h.balanced
      rw [hopen] at hbalanced
      exact hbalanced.not_open hinside.closed
  | @breaks front back s _ hsplit _ hbreaks =>
      cases hbreaks with
      | unread hread =>
          have hmem : s ∈ statements := by
            rw [hsplit]
            exact List.mem_append_right _ List.mem_cons_self
          obtain ⟨command, hok⟩ := h.readable s hmem
          cases hok.symm.trans hread
      | unmatched hread hfront =>
          have hcommands : commands statements =
              (commands front ++ [(s.location, .finish)]) ++ commands back := by
            rw [hsplit, commands_append, commands_cons hread, List.append_assoc]
            rfl
          have hcovered := h.balanced.covered _ _ hcommands
          rw [depth_append, hfront.closed, depth_finish, depth] at hcovered
          omega
      | @duplicate before inside start name params _ hfront _ hname =>
          have hcommands : commands statements =
              before ++ (start, .function name params) :: (inside ++ commands (s :: back)) := by
            rw [hsplit, commands_append, hfront, List.append_assoc, List.cons_append]
          exact h.distinct _ _ _ _ _ hcommands hname

/-- Just the well-nested texts compile. A text that does not is answered the fault of its first
statement that breaks a rule, or of the innermost function that is left open. A text that does
builds the tree that it writes out. -/
theorem compile_wellNested (source : String) :
    ((∃ module, compile source = .ok module) ↔ WellNested (Statement.split source)) ∧
      (∀ fault, compile source = .error fault ↔ FirstFault (Statement.split source) fault) ∧
      ∀ module, compile source = .ok module →
        Builds (commands (Statement.split source)) (Text.lines source).length module := by
  refine ⟨⟨?_, ?_⟩, fun fault => compile_error_iff, ?_⟩
  · rintro ⟨module, hmodule⟩
    obtain ⟨hfaultless, layout, hwritten, hdistinct, -⟩ := compile_ok hmodule
    refine ⟨?_, hwritten ▸ layout.balanced, ?_⟩
    · intro s hs
      obtain ⟨front, back, hsplit⟩ := List.append_of_mem hs
      cases hread : Command.ofStatement s with
      | ok command => exact ⟨command, rfl⟩
      | error fault => exact absurd (.unread hread) (hfaultless front s back fault hsplit)
    · intro front start name params back hsplit
      exact hdistinct.not_declared (hwritten.trans hsplit)
  · intro hnested
    cases hcompile : compile source with
    | ok module => exact ⟨module, rfl⟩
    | error fault => exact absurd (compile_error_iff.1 hcompile) hnested.not_firstFault
  · intro module hmodule
    obtain ⟨-, layout, hwritten, hdistinct, rfl⟩ := compile_ok hmodule
    refine ⟨⟨layout, hwritten, hdistinct, rfl⟩, fun i => Layout.op_ne_ret, ?_⟩
    intro f hf
    have hordered := commands_ordered source
    rw [← hwritten] at hordered ⊢
    exact Layout.endsAt hordered rfl hf

end ScriptDebugger.Source
