import ScriptDebugger.Machine.Step
/-!
# What a block tree means

A program can be understood without a stack of frames and without numbers for its units: statements
run in order, a call runs the body of the function it names to the end, and deferred calls wait in a
queue until the module is done. `Executes` says this of a block tree. What a function sees is its
scope, the blocks around it; what it holds is a map from names to values, made anew for each call.

The heap, and the text that `print` writes for a value, are those of the machine.

## Main definitions

* `Executes` — running the instructions of a block from one world to another.
* `Evaluates` — a whole program, with its deferred calls.

## Main results

* `lookup_initialBindings` — a frame starts with the locals of its function.
* `store_locals` — an assignment changes the bindings of a frame as it changes the locals.
-/

namespace ScriptDebugger

open Source (Binding Block Instruction Op Operand)

/-- Whether an operation declares the name. -/
def Source.Op.declares (name : String) : Op → Bool
  | .store .declare declared => declared == name
  | _ => false

namespace Machine

/-! ## Names -/

/-- The function that a name means in a scope, as the scope of that function: a function declared
directly in the innermost block, or else what the name means in the blocks around it. -/
def functionIn? (name : String) : (scope : List Block) → Option (List Block)
  | [] => none
  | block :: outer =>
    match block.functions.find? fun f => f.name == some name with
    | some f => some (f :: block :: outer)
    | none => functionIn? name outer

/-- The local names of a function with their values. A name that is declared somewhere in the
function and has no value yet is uninitialized. -/
def Locals : Type := String → Option Value

namespace Locals

/-- The locals with a new value for a name. -/
def set (locals : Locals) (name : String) (value : Value) : Locals :=
  fun other => if other = name then some value else locals other

/-- The parameters bound to arguments by position: missing arguments are `undefined`, superfluous
ones are dropped. -/
def ofParams : (params : List String) → (args : List Value) → Locals
  | [], _ => fun _ => none
  | param :: rest, args => fun name =>
    if param = name then some (args.head?.getD .undefined) else ofParams rest args.tail name

/-- The locals that a block starts with: its parameters, and the names it declares. -/
def entry (block : Block) (args : List Value) : Locals := fun name =>
  match ofParams block.params args name with
  | some value => some value
  | none => if block.code.any (·.op.declares name) then some .uninitialized else none

/-- What a name reads: the local, or else the property of the global object. -/
def read (locals : Locals) (heap : Heap) (name : String) : Value :=
  match locals name with
  | some .uninitialized => .undefined
  | some value => value
  | none => (heap.property? Heap.globalId name).getD .undefined

/-- What an operand comes to; a literal is built anew. -/
def operand (locals : Locals) (heap : Heap) : Operand → Heap × Value
  | .literal json => heap.importJson json
  | .name name => (heap, locals.read heap name)

/-- What operands come to, from left to right. -/
def operands (locals : Locals) (heap : Heap) : List Operand → Heap × List Value
  | [] => (heap, [])
  | first :: rest =>
    let (heap, value) := locals.operand heap first
    let (heap, values) := locals.operands heap rest
    (heap, value :: values)

/-- An assignment: `let` means a local, `global` a property of the global object, and `set` a local
that there is, or a property that there is, or else a new local. -/
def assign (locals : Locals) (heap : Heap) (binding : Binding) (name : String) (value : Value) :
    Heap × Locals :=
  let onGlobal := (heap.defineProperty Heap.globalId name value, locals)
  let onLocal := (heap, locals.set name value)
  match binding with
  | .declare => onLocal
  | .globalProperty => onGlobal
  | .assign =>
    if (locals name).isNone ∧ (heap.property? Heap.globalId name).isSome then onGlobal else onLocal

end Locals

/-! ## Statements -/

/-- A deferred call: the scope of the function, and the values of the arguments. -/
structure Pending where
  /-- The function and the blocks around it. -/
  scope : List Block
  /-- The values of the arguments. -/
  args : List Value

/-- What a program changes. -/
structure World where
  /-- The objects. -/
  heap : Heap
  /-- The deferred calls, the oldest first. -/
  queue : List Pending
  /-- The lines written. -/
  output : List String

/-- The world in which a program starts. -/
def World.initial : World := ⟨Heap.initial, [], []⟩

/-- `Executes scope locals w code w'`: in the scope, with the locals, the instructions lead from the
world `w` to the world `w'`. An assignment is two instructions. -/
inductive Executes : List Block → Locals → World → List Instruction → World → Prop
  /-- Nothing is left to do. -/
  | done {scope : List Block} {locals : Locals} {w : World} : Executes scope locals w [] w
  /-- The function ends. -/
  | ret {scope : List Block} {locals : Locals} {w : World} {location : Location}
      {rest : List Instruction} : Executes scope locals w (⟨.ret, location⟩ :: rest) w
  /-- A name gets a value. -/
  | assign {scope : List Block} {locals locals' : Locals} {w w' : World} {heap heap' : Heap}
      {value : Value} {operand : Operand} {binding : Binding} {name : String}
      {first second : Location} {rest : List Instruction}
      (hvalue : locals.operand w.heap operand = (heap, value))
      (hassign : locals.assign heap binding name value = (heap', locals'))
      (hrest : Executes scope locals' { w with heap := heap' } rest w') :
      Executes scope locals w (⟨.load operand, first⟩ :: ⟨.store binding name, second⟩ :: rest) w'
  /-- A line is written. -/
  | print {scope : List Block} {locals : Locals} {w w' : World} {heap : Heap} {value : Value}
      {operand : Operand} {location : Location} {rest : List Instruction}
      (hvalue : locals.operand w.heap operand = (heap, value))
      (hrest : Executes scope locals
        { w with heap, output := w.output ++ [State.display heap value] } rest w') :
      Executes scope locals w (⟨.print operand, location⟩ :: rest) w'
  /-- A function runs to its end, with locals of its own. -/
  | call {scope outer : List Block} {block : Block} {locals : Locals} {w between w' : World}
      {heap : Heap} {values : List Value} {name : String} {args : List Operand}
      {location : Location} {rest : List Instruction}
      (hfunction : functionIn? name scope = some (block :: outer))
      (hvalues : locals.operands w.heap args = (heap, values))
      (hbody : Executes (block :: outer) (.entry block values) { w with heap } block.code between)
      (hrest : Executes scope locals between rest w') :
      Executes scope locals w (⟨.call name args, location⟩ :: rest) w'
  /-- A call of a function that does not exist does nothing. -/
  | callUnknown {scope : List Block} {locals : Locals} {w w' : World} {name : String}
      {args : List Operand} {location : Location} {rest : List Instruction}
      (hfunction : functionIn? name scope = none) (hrest : Executes scope locals w rest w') :
      Executes scope locals w (⟨.call name args, location⟩ :: rest) w'
  /-- A call is queued with the values that its arguments have now. -/
  | defer {scope callee : List Block} {locals : Locals} {w w' : World} {heap : Heap}
      {values : List Value} {name : String} {args : List Operand} {location : Location}
      {rest : List Instruction} (hfunction : functionIn? name scope = some callee)
      (hvalues : locals.operands w.heap args = (heap, values))
      (hrest : Executes scope locals { w with heap, queue := w.queue ++ [⟨callee, values⟩] } rest
        w') :
      Executes scope locals w (⟨.defer name args, location⟩ :: rest) w'
  /-- To defer a function that does not exist does nothing. -/
  | deferUnknown {scope : List Block} {locals : Locals} {w w' : World} {name : String}
      {args : List Operand} {location : Location} {rest : List Instruction}
      (hfunction : functionIn? name scope = none) (hrest : Executes scope locals w rest w') :
      Executes scope locals w (⟨.defer name args, location⟩ :: rest) w'

/-- `Drains w w'`: the queued calls, and the ones that are queued meanwhile, run one by one. -/
inductive Drains : World → World → Prop
  | empty {w : World} (hqueue : w.queue = []) : Drains w w
  | next {w between w' : World} {block : Block} {outer : List Block} {args : List Value}
      {queue : List Pending} (hqueue : w.queue = ⟨block :: outer, args⟩ :: queue)
      (hbody : Executes (block :: outer) (.entry block args) { w with queue } block.code between)
      (hrest : Drains between w') : Drains w w'

/-- The evaluation of a program ends in the world `w`. -/
def Evaluates (module : Block) (w : World) : Prop :=
  ∃ between, Executes [module] (.entry module []) .initial module.code between ∧ Drains between w

/-! ## Locals as bindings -/

/-- The bindings hold the locals. -/
def Holds (bindings : List (String × Value)) (locals : Locals) : Prop :=
  ∀ name, lookup name bindings = locals name

theorem lookup_cons (key name : String) (value : Value) (rest : List (String × Value)) :
    lookup name ((key, value) :: rest) = if key = name then some value else lookup name rest := by
  by_cases h : key = name <;> simp [lookup, h]

theorem lookup_append (name : String) (front back : List (String × Value)) :
    lookup name (front ++ back) = (lookup name front).or (lookup name back) := by
  rw [lookup, List.find?_append, lookup, lookup]
  cases front.find? fun entry => entry.1 == name <;> rfl

/-- A frame binds its parameters by position. -/
theorem lookup_zip (name : String) (params : List String) (args : List Value) {padding : Nat}
    (h : params.length ≤ padding) :
    lookup name (params.zip (args ++ List.replicate padding .undefined)) =
      Locals.ofParams params args name := by
  induction params generalizing args padding with
  | nil => rfl
  | cons param rest ih =>
      obtain ⟨padding, rfl⟩ : ∃ n, padding = n + 1 := ⟨padding - 1, by simp at h; omega⟩
      have hrest : rest.length ≤ padding := by simpa using h
      cases args with
      | nil =>
          have hmore := ih [] hrest
          rw [List.nil_append] at hmore
          rw [List.nil_append, List.replicate_succ, List.zip_cons_cons, lookup_cons, hmore]
          rfl
      | cons arg args =>
          rw [List.cons_append, List.zip_cons_cons, lookup_cons, ih args (Nat.le_succ_of_le hrest)]
          rfl

/-- Declared names are added as uninitialized bindings unless they are bound. -/
theorem lookup_declared (name : String) (declared : List String) (bound : List (String × Value)) :
    lookup name (declared.foldl
        (fun bs n => if bs.any (·.1 == n) then bs else bs ++ [(n, Value.uninitialized)]) bound) =
      (lookup name bound).or (if declared.contains name then some .uninitialized else none) := by
  induction declared generalizing bound with
  | nil => cases h : lookup name bound <;> simp [h]
  | cons first rest ih =>
      have hany : bound.any (·.1 == first) = (lookup first bound).isSome := by
        rw [lookup, Option.isSome_map, Bool.eq_iff_iff, List.find?_isSome, List.any_eq_true]
      rw [List.foldl_cons, ih, hany]
      by_cases hname : first = name
      · subst hname
        cases hbound : lookup first bound with
        | some value => simp [hbound]
        | none => simp [lookup_append, hbound, lookup_cons]
      · have hother : name ≠ first := fun e => hname e.symm
        have hnothing : lookup name [(first, Value.uninitialized)] = none := by
          rw [lookup_cons, if_neg hname]
          rfl
        have hlist : (first :: rest).contains name = rest.contains name := by simp [hother]
        rw [hlist]
        cases hbound : lookup first bound with
        | some value => rw [Option.isSome_some, if_pos rfl]
        | none => rw [Option.isSome_none, if_neg Bool.false_ne_true, lookup_append, hnothing,
            Option.or_none]

theorem mem_declareAll {name : String} {names : List String} {code : List Instruction} :
    name ∈ Block.declareAll names code ↔ name ∈ names ∨ code.any (·.op.declares name) = true := by
  induction code generalizing names with
  | nil => simp [Block.declareAll]
  | cons i rest ih =>
      obtain ⟨op, location⟩ := i
      have hadd : ∀ other, name ∈ Block.addName names other ↔ name ∈ names ∨ other = name := by
        intro other
        unfold Block.addName
        split
        · rename_i hthere
          refine ⟨Or.inl, fun h => h.elim id ?_⟩
          rintro rfl
          simpa using hthere
        · simp [eq_comm]
      unfold Block.declareAll
      split
      · rename_i h
        cases h
      · rename_i other location' rest' heq
        obtain ⟨⟨rfl, rfl⟩, rfl⟩ : (op = .store .declare other ∧ location = location') ∧
            rest = rest' := by simpa using heq
        rw [ih, hadd, List.any_cons, Source.Op.declares, Bool.or_eq_true, beq_iff_eq, or_assoc]
      · rename_i i' rest' hnot heq
        obtain ⟨rfl, rfl⟩ := List.cons.inj heq
        have hop : op.declares name = false := by
          cases op with
          | store binding other =>
              cases binding with
              | declare => exact absurd rfl (hnot other location)
              | _ => rfl
          | _ => rfl
        rw [ih, List.any_cons, hop, Bool.false_or]

theorem Locals.not_mem_of_ofParams {name : String} {params : List String} {args : List Value}
    (h : ofParams params args name = none) : name ∉ params := by
  induction params generalizing args with
  | nil => exact List.not_mem_nil
  | cons param rest ih =>
      simp only [ofParams] at h
      split at h
      · cases h
      · rename_i hne
        exact fun hmem => (List.mem_cons.1 hmem).elim (fun e => hne e.symm) (ih h)

/-- A frame starts with the locals of its function. -/
theorem lookup_initialBindings (block : Block) (args : List Value) :
    Holds (Activation.initialBindings block.params block.declaredNames args)
      (.entry block args) := by
  intro name
  rw [Activation.initialBindings, lookup_declared, lookup_zip name _ args (Nat.le_refl _),
    Locals.entry]
  cases hparam : Locals.ofParams block.params args name with
  | some value => rfl
  | none =>
      have hdeclared : block.declaredNames.contains name = block.code.any (·.op.declares name) := by
        rw [Bool.eq_iff_iff, List.contains_iff_mem, Block.declaredNames, mem_declareAll]
        exact or_iff_right (Locals.not_mem_of_ofParams hparam)
      rw [hdeclared]
      rfl

section

variable {top : Activation} {locals : Locals} (h : Holds top.bindings locals) (heap : Heap)
include h

theorem evaluate_locals (operand : Operand) :
    State.evaluate heap top operand = locals.operand heap operand := by
  cases operand with
  | literal json => rfl
  | name name =>
      have hname : top.binding? name = locals name := h name
      rw [State.evaluate, State.read, hname]
      rfl

theorem evaluateAll_locals (operands : List Operand) :
    State.evaluateAll heap top operands = locals.operands heap operands := by
  induction operands generalizing heap with
  | nil => rfl
  | cons first rest ih =>
      rw [State.evaluateAll, Locals.operands, evaluate_locals h heap first]
      simp only [ih]

end

theorem Holds.define {bindings : List (String × Value)} {locals : Locals} (h : Holds bindings locals)
    (name : String) (value : Value) :
    Holds (Machine.define name value bindings) (locals.set name value) := by
  intro other
  rw [Locals.set]
  split
  · rename_i hsame
    rw [hsame, lookup_define_self]
  · rename_i hother
    rw [lookup_define_ne value bindings hother, h other]

/-- An assignment changes the bindings of a frame as it changes the locals. -/
theorem store_locals {bindings : List (String × Value)} {locals locals' : Locals}
    {heap heap' : Heap} {binding : Binding} {name : String} {value : Value}
    (h : Holds bindings locals)
    (hassign : locals.assign heap binding name value = (heap', locals')) :
    ∃ bindings', State.store heap bindings binding name value = (heap', bindings') ∧
      Holds bindings' locals' := by
  have hdefine := h.define name value
  cases binding with
  | declare =>
      obtain ⟨rfl, rfl⟩ := Prod.mk.inj hassign
      exact ⟨_, rfl, hdefine⟩
  | globalProperty =>
      obtain ⟨rfl, rfl⟩ := Prod.mk.inj hassign
      exact ⟨_, rfl, h⟩
  | assign =>
      simp only [Locals.assign] at hassign
      rw [State.store]
      cases hupdate : update? name value bindings with
      | some bindings' =>
          have hbound : ¬(locals name).isNone = true := by
            intro hnone
            rw [← h name, Option.isNone_iff_eq_none] at hnone
            rw [update?_eq_none_iff.2 hnone] at hupdate
            cases hupdate
          rw [if_neg (fun hboth => hbound hboth.1)] at hassign
          obtain ⟨rfl, rfl⟩ := Prod.mk.inj hassign
          rw [Machine.define, hupdate] at hdefine
          exact ⟨_, rfl, hdefine⟩
      | none =>
          have hfree : (locals name).isNone = true := by
            rw [← h name, Option.isNone_iff_eq_none]
            exact update?_eq_none_iff.1 hupdate
          rw [Machine.define, hupdate] at hdefine
          by_cases hglobal : (heap.property? Heap.globalId name).isSome = true
          · rw [if_pos ⟨hfree, hglobal⟩] at hassign
            obtain ⟨rfl, rfl⟩ := Prod.mk.inj hassign
            exact ⟨_, if_pos hglobal, h⟩
          · rw [if_neg (fun hboth => hglobal hboth.2)] at hassign
            obtain ⟨rfl, rfl⟩ := Prod.mk.inj hassign
            exact ⟨_, if_neg hglobal, hdefine⟩

end Machine

end ScriptDebugger
