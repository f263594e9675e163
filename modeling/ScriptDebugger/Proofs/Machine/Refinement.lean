import Mathlib
import ScriptDebugger.Proofs.Machine.Scopes
import ScriptDebugger.Proofs.Machine.SmallStep
/-!
# The machine does what the block tree means

A machine runs a program with a stack of frames, numbered units and an instruction pointer. Where the
evaluation of the block tree ends, so does the machine's run, with the same output and the same
objects. The proof follows the evaluation: what the instructions of a block do from some world to
another, a frame that stands before them does, and is then gone from the stack.

## Main results

* `Executes.run` — a frame in front of some code leaves the world that the code leads to.
* `Drains.run` — so does the queue of deferred calls.
* `run_refines` — a program ends as its evaluation does.
-/

namespace ScriptDebugger.Machine

open Source (Block Instruction Op)

/-! ## Worlds and frames -/

/-- A queued call of the machine is that of the evaluation. -/
def Queued (p : Program) (call : DeferredCall) (pending : Pending) : Prop :=
  Shows p call.unit.number pending.scope ∧ call.args = pending.args

/-- The machine is in the world, with its frames left open. -/
structure InWorld (p : Program) (s : State) (w : World) : Prop where
  program : s.program = p
  started : s.started = true
  heap : s.heap = w.heap
  output : s.output = w.output
  queue : List.Forall₂ (Queued p) s.deferred w.queue

/-- The frame is in front of the code, in the scope and with the locals. -/
structure InFront (p : Program) (a : Activation) (scope : List Block) (locals : Locals)
    (code : List Instruction) : Prop where
  entered : a.entered = true
  unseen : a.boundarySeen = false
  shows : Shows p a.unit.number scope
  code : ∃ block outer done, scope = block :: outer ∧ block.code = done ++ code ∧
    a.pc = done.length
  locals : Holds a.bindings locals

/-- In some ticks the machine `s` gets into the world, with the stack. -/
def Gets (p : Program) (s : State) (stack : List Activation) (w : World) : Prop :=
  ∃ n, InWorld p (s.after n) w ∧ (s.after n).stack = stack

theorem gets_of_after {p : Program} {s : State} {n : Nat} {stack : List Activation} {w : World}
    (h : Gets p (s.after n) stack w) : Gets p s stack w := by
  obtain ⟨m, hm⟩ := h
  exact ⟨n + m, by rwa [State.after_add]⟩

theorem gets_trans {p : Program} {s : State} {stack stack' : List Activation} {w w' : World}
    (h : Gets p s stack w)
    (hrest : ∀ t, InWorld p t w → t.stack = stack → Gets p t stack' w') : Gets p s stack' w' := by
  obtain ⟨n, hworld, hstack⟩ := h
  exact gets_of_after (hrest _ hworld hstack)

namespace InWorld

variable {p : Program} {s : State} {w : World}

/-- The frames do not belong to the world. -/
theorem withStack (h : InWorld p s w) (stack : List Activation) : InWorld p { s with stack } w :=
  ⟨h.program, h.started, h.heap, h.output, h.queue⟩

theorem withHeap (h : InWorld p s w) (heap : Heap) :
    InWorld p { s with heap } { w with heap } :=
  ⟨h.program, h.started, rfl, h.output, h.queue⟩

/-- A frame that starts is in front of the whole code of its function. -/
theorem push (h : InWorld p s w) (unit : UnitId) {block : Block} {outer : List Block}
    (hshows : Shows p unit.number (block :: outer)) (args : List Value) (callee : Option String) :
    ∃ a, InWorld p (s.push unit args callee) w ∧ (s.push unit args callee).stack = a :: s.stack ∧
      a.entered = false ∧
      InFront p { a with entered := true } (block :: outer) (.entry block args) block.code := by
  obtain ⟨code, hunit, hparams, hdeclared, -⟩ := hshows.unit?_eq
  rw [← h.program] at hunit
  simp only [State.push, hunit, hparams, hdeclared]
  refine ⟨_, ⟨h.program, h.started, h.heap, h.output, h.queue⟩, rfl, rfl, rfl, rfl, hshows, ?_, ?_⟩
  · exact ⟨block, outer, [], rfl, rfl, rfl⟩
  · exact lookup_initialBindings block args

end InWorld

namespace InFront

variable {p : Program} {a b : Activation} {scope : List Block} {locals locals' : Locals}
  {i : Instruction} {rest code : List Instruction}

theorem instruction?_eq (h : InFront p a scope locals (i :: rest)) :
    p.instruction? a.unit a.pc = some i := by
  obtain ⟨block, outer, done, rfl, hcode, hpc⟩ := h.code
  rw [h.shows.instruction?_eq, hpc, hcode, List.getElem?_append_right (Nat.le_refl _), Nat.sub_self]
  rfl

theorem instruction?_end (h : InFront p a scope locals []) :
    p.instruction? a.unit a.pc = none := by
  obtain ⟨block, outer, done, rfl, hcode, hpc⟩ := h.code
  rw [h.shows.instruction?_eq, hpc, hcode, List.append_nil, List.getElem?_eq_none (Nat.le_refl _)]

/-- Behind an instruction, the frame is in front of the next one. -/
theorem next (h : InFront p a scope locals (i :: rest)) (hentered : b.entered = true)
    (hunseen : b.boundarySeen = false) (hunit : b.unit = a.unit) (hpc : b.pc = a.pc + 1)
    (hlocals : Holds b.bindings locals') : InFront p b scope locals' rest := by
  obtain ⟨block, outer, done, hscope, hcode, hat⟩ := h.code
  refine ⟨hentered, hunseen, by rw [hunit]; exact h.shows, ?_, hlocals⟩
  refine ⟨block, outer, done ++ [i], hscope, ?_, ?_⟩
  · rw [hcode, List.append_assoc]
    rfl
  · rw [hpc, hat, List.length_append]
    rfl

/-- Behind the end of the function, there is no code. -/
theorem ret (h : InFront p a scope locals code) (hentered : b.entered = true)
    (hunseen : b.boundarySeen = false) (hunit : b.unit = a.unit)
    (hpc : b.pc = p.codeLength a.unit) (hlocals : Holds b.bindings locals) :
    InFront p b scope locals [] := by
  have hshows := h.shows
  obtain ⟨block, outer, done, rfl, -, -⟩ := h.code
  refine ⟨hentered, hunseen, by rw [hunit]; exact hshows, ?_, hlocals⟩
  refine ⟨block, outer, block.code, rfl, (List.append_nil _).symm, ?_⟩
  rw [hpc]
  exact hshows.codeLength_eq

end InFront

/-! ## Steps of a frame -/

section

variable {p : Program} {s : State} {w : World} {a : Activation} {below : List Activation}
  {scope : List Block} {locals : Locals} {i : Instruction} {rest : List Instruction}

/-- In two ticks, the boundary before an instruction is considered and the instruction is
executed. -/
theorem after_two (hworld : InWorld p s w) (hstack : s.stack = a :: below)
    (hfront : InFront p a scope locals (i :: rest)) :
    s.after 2 = { s with stack := { a with boundarySeen := true } :: below }.perform
      { a with boundarySeen := true } below i.op := by
  have hinstr := hfront.instruction?_eq
  have hconsider := State.tick_consider hworld.started hstack hfront.entered
    (by rw [hworld.program]; exact hinstr) hfront.unseen
  change s.tick.tick = _
  rw [hconsider]
  exact State.tick_execute hworld.started rfl hfront.entered
    (by rw [hworld.program]; exact hinstr) rfl

/-- An operand has the value that it has in the evaluation. -/
theorem evaluate_seen (hworld : InWorld p s w) (hfront : InFront p a scope locals (i :: rest))
    {operand : Source.Operand} {result : Heap × Value}
    (h : locals.operand w.heap operand = result) :
    State.evaluate s.heap { a with boundarySeen := true } operand = result := by
  have hholds : Holds { a with boundarySeen := true }.bindings locals := hfront.locals
  rw [evaluate_locals hholds, hworld.heap, h]

theorem evaluateAll_seen (hworld : InWorld p s w) (hfront : InFront p a scope locals (i :: rest))
    {operands : List Source.Operand} {result : Heap × List Value}
    (h : locals.operands w.heap operands = result) :
    State.evaluateAll s.heap { a with boundarySeen := true } operands = result := by
  have hholds : Holds { a with boundarySeen := true }.bindings locals := hfront.locals
  rw [evaluateAll_locals hholds, hworld.heap, h]

/-- A name that a frame calls means the function that it means in the evaluation. -/
theorem lookupFunction_front (hworld : InWorld p s w)
    (hfront : InFront p a scope locals (i :: rest)) {name : String} {callee : List Block}
    (hfunction : functionIn? name scope = some callee) :
    ∃ child, s.program.lookupFunction a.unit name = some ⟨child⟩ ∧ Shows p child callee := by
  rw [hworld.program]
  exact lookupFunction_of_shows hfront.shows hfunction

theorem lookupFunction_front_none (hworld : InWorld p s w)
    (hfront : InFront p a scope locals (i :: rest)) {name : String}
    (hfunction : functionIn? name scope = none) :
    s.program.lookupFunction a.unit name = none := by
  rw [hworld.program]
  exact lookupFunction_eq_none hfront.shows hfunction

/-- At its end, a frame leaves the stack. -/
theorem gets_leave (hworld : InWorld p s w) (hstack : s.stack = a :: below)
    (hfront : InFront p a scope locals []) : Gets p s (State.resumeCaller below) w := by
  have hleave := State.tick_leave hworld.started hstack hfront.entered
    (by rw [hworld.program]; exact hfront.instruction?_end)
  refine ⟨1, ?_⟩
  change InWorld p s.tick w ∧ s.tick.stack = _
  rw [hleave, State.pop, hstack]
  exact ⟨hworld.withStack _, rfl⟩

/-- The entry of a frame is passed in one tick. -/
theorem tick_entry (hworld : InWorld p s w) (hstack : s.stack = a :: below)
    (hentered : a.entered = false) :
    InWorld p s.tick w ∧ s.tick.stack = { a with entered := true } :: below := by
  rw [State.tick_enter hworld.started hstack hentered]
  exact ⟨hworld.withStack _, rfl⟩

end

/-! ## Running the code of a frame -/

section

variable {p : Program}

/-- A frame in front of some code leaves the world that the code leads to, and is gone. -/
theorem Executes.run {scope : List Block} {locals : Locals} {w w' : World}
    {code : List Instruction} (h : Executes scope locals w code w') {s : State} {a : Activation}
    {below : List Activation} (hworld : InWorld p s w) (hstack : s.stack = a :: below)
    (hfront : InFront p a scope locals code) : Gets p s (State.resumeCaller below) w' := by
  induction h generalizing s a below with
  | done => exact gets_leave hworld hstack hfront
  | ret =>
      have htwo := after_two hworld hstack hfront
      refine gets_of_after (n := 2) ?_
      rw [htwo]
      refine gets_leave ⟨hworld.program, hworld.started, hworld.heap, hworld.output, hworld.queue⟩
        rfl (hfront.ret hfront.entered rfl rfl ?_ hfront.locals)
      rw [← hworld.program]
  | @assign scope locals locals' w w' heap heap' value operand binding name _ _ rest hvalue hassign
      _ ih =>
      have hload := after_two hworld hstack hfront
      simp only [State.perform, evaluate_seen hworld hfront hvalue] at hload
      have hbetween : InWorld p (s.after 2) { w with heap } := by
        rw [hload]
        exact (hworld.withHeap heap).withStack _
      have hnext : InFront p { a.next with accumulator := value } scope locals _ :=
        hfront.next hfront.entered rfl rfl rfl hfront.locals
      have hstore := after_two hbetween (by rw [hload]; rfl) hnext
      obtain ⟨bindings, hstored, hholds⟩ := store_locals hfront.locals hassign
      have hstored' : State.store (s.after 2).heap a.bindings binding name value =
          (heap', bindings) := by
        rw [hbetween.heap]
        exact hstored
      simp only [State.perform, Activation.next, hstored'] at hstore
      refine gets_of_after (n := 2) (gets_of_after (n := 2) ?_)
      rw [hstore]
      exact ih ((hbetween.withHeap heap').withStack _) rfl
        (hnext.next hfront.entered rfl rfl rfl hholds)
  | @print scope locals w w' heap value operand _ rest hvalue _ ih =>
      have hprint := after_two hworld hstack hfront
      simp only [State.perform, evaluate_seen hworld hfront hvalue] at hprint
      refine gets_of_after (n := 2) ?_
      rw [hprint]
      refine ih ⟨hworld.program, hworld.started, rfl, ?_, hworld.queue⟩ rfl
        (hfront.next hfront.entered rfl rfl rfl hfront.locals)
      rw [← hworld.output]
  | @call scope outer block locals w between w' heap values name args _ rest hfunction hvalues _ _
      ihbody ihrest =>
      have hcall := after_two hworld hstack hfront
      obtain ⟨child, hlooked, hshows⟩ := lookupFunction_front hworld hfront hfunction
      simp only [State.perform, hlooked, evaluateAll_seen hworld hfront hvalues] at hcall
      obtain ⟨callee, hpushed, hcallee, hunentered, hcalleeFront⟩ :=
        ((hworld.withHeap heap).withStack
          ({ a with boundarySeen := true, awaitingReturn := true } :: below)).push ⟨child⟩
          hshows values (some name)
      rw [← hcall] at hpushed hcallee
      obtain ⟨hentered, hstanding⟩ := tick_entry hpushed hcallee hunentered
      refine gets_of_after (n := 2) (gets_of_after (n := 1) ?_)
      refine gets_trans (ihbody hentered hstanding hcalleeFront) fun t htworld htstack => ?_
      -- the caller goes on behind the call
      rw [State.resumeCaller, if_pos rfl] at htstack
      exact ihrest htworld htstack (hfront.next hfront.entered rfl rfl rfl hfront.locals)
  | @callUnknown scope locals w w' name args _ rest hfunction _ ih =>
      have hcall := after_two hworld hstack hfront
      have hlooked := lookupFunction_front_none hworld hfront hfunction
      simp only [State.perform, hlooked] at hcall
      refine gets_of_after (n := 2) ?_
      rw [hcall]
      exact ih (hworld.withStack _) rfl (hfront.next hfront.entered rfl rfl rfl hfront.locals)
  | @defer scope callee locals w w' heap values name args _ rest hfunction hvalues _ ih =>
      have hdefer := after_two hworld hstack hfront
      obtain ⟨child, hlooked, hshows⟩ := lookupFunction_front hworld hfront hfunction
      simp only [State.perform, hlooked, evaluateAll_seen hworld hfront hvalues] at hdefer
      refine gets_of_after (n := 2) ?_
      rw [hdefer]
      refine ih ⟨hworld.program, hworld.started, rfl, hworld.output, ?_⟩ rfl
        (hfront.next hfront.entered rfl rfl rfl hfront.locals)
      exact List.rel_append hworld.queue (.cons ⟨hshows, rfl⟩ .nil)
  | @deferUnknown scope locals w w' name args _ rest hfunction _ ih =>
      have hdefer := after_two hworld hstack hfront
      have hlooked := lookupFunction_front_none hworld hfront hfunction
      simp only [State.perform, hlooked] at hdefer
      refine gets_of_after (n := 2) ?_
      rw [hdefer]
      exact ih (hworld.withStack _) rfl (hfront.next hfront.entered rfl rfl rfl hfront.locals)

/-- The deferred calls run one by one, each in a frame of its own. -/
theorem Drains.run {w w' : World} (h : Drains w w') {s : State} (hworld : InWorld p s w)
    (hstack : s.stack = []) : ∃ n, InWorld p (s.after n) w' ∧ (s.after n).isFinished = true := by
  induction h generalizing s with
  | @empty w hqueue =>
      refine ⟨0, hworld, ?_⟩
      have hdeferred : s.deferred = [] := by
        have hcalls := hworld.queue
        rw [hqueue] at hcalls
        exact List.forall₂_nil_right_iff.1 hcalls
      change s.isFinished = true
      rw [State.isFinished, hworld.started, hstack, hdeferred]
      rfl
  | @next w between w' block outer args queue hqueue hbody _ ih =>
      have hcalls := hworld.queue
      rw [hqueue] at hcalls
      obtain ⟨call, rest, ⟨hshows, hargs⟩, hrest, hdeferred⟩ := List.forall₂_cons_right_iff.1 hcalls
      have hpush := State.tick_unqueue hworld.started hstack hdeferred
      have hwaiting : InWorld p { s with deferred := rest } { w with queue } :=
        ⟨hworld.program, hworld.started, hworld.heap, hworld.output, hrest⟩
      obtain ⟨a, hpushed, hframe, hunentered, hfront⟩ :=
        hwaiting.push call.unit hshows call.args (some call.name)
      rw [← hpush] at hpushed hframe
      rw [hargs] at hfront
      obtain ⟨hentered, hstanding⟩ := tick_entry hpushed hframe hunentered
      obtain ⟨n, hbetween, hempty⟩ := hbody.run hentered hstanding hfront
      change (s.tick.tick.after n).stack = State.resumeCaller s.stack at hempty
      rw [hstack] at hempty
      obtain ⟨m, hend⟩ := ih hbetween hempty
      refine ⟨2 + (n + m), ?_⟩
      rw [State.after_add, State.after_add]
      exact hend

end

/-! ## Whole programs -/

/-- A run ends where the ticks end. -/
theorem runs_of_after {s : State} {n : Nat} (h : (s.after n).isFinished = true) :
    s.Runs (s.after n) := by
  induction n generalizing s with
  | zero =>
      have hfinished : s.isFinished = true := h
      simp only [State.isFinished, Bool.and_eq_true, List.isEmpty_iff] at hfinished
      obtain ⟨⟨hstarted, hstack⟩, hdeferred⟩ := hfinished
      refine ⟨1, ?_⟩
      simp only [State.runWithin, State.advance, State.advanceIdle, hstarted, hstack, hdeferred]
      rfl
  | succ n ih =>
      have hsplit : s.after (n + 1) = s.tick.after n := by
        rw [Nat.add_comm, State.after_add]
        rfl
      rw [hsplit] at h ⊢
      have htick : (State.advance .none s).1 = s.tick := rfl
      obtain ⟨fuel, hfuel⟩ := ih h
      rcases hadvance : State.advance .none s with ⟨next, event⟩
      rw [hadvance] at htick
      obtain rfl : next = s.tick := htick
      by_cases hend : event = some .finished
      · -- a program that has ended does not move
        subst hend
        obtain ⟨hsame, hstarted, hstack, hdeferred⟩ := (State.step_of_advance hadvance).finish_inv
        have hfinished : s.isFinished = true := by
          rw [State.isFinished, hstarted, hstack, hdeferred]
          rfl
        rw [hsame, State.after_of_finished (k := 0) (s := s) hfinished (Nat.zero_le n)]
        refine ⟨1, ?_⟩
        rw [State.runWithin, hadvance, hsame]
        rfl
      · refine ⟨fuel + 1, ?_⟩
        rw [State.runWithin, hadvance, ← hfuel]
        split
        · rename_i heq
          exact absurd (congrArg Prod.snd heq) hend
        · rename_i heq
          rw [(Prod.mk.inj heq).1]

/-- Where the evaluation of a program ends, its run ends as well. It has written the same lines, and
leaves the same objects, the global one with its properties among them. -/
theorem run_refines (library : String → Option String) (url : String) {source : String}
    {module : Block} {w : World} (hcompile : Source.compile source = .ok module)
    (hevaluates : Evaluates module w) :
    ∃ s t, State.ofSource library url source = .ok s ∧ s.Runs t ∧ t.output = w.output ∧
      t.heap = w.heap := by
  obtain ⟨between, hmodule, hdrains⟩ := hevaluates
  have hshows := Shows.ofBlock url module
  generalize hprogram : Program.ofBlock url module = p at hshows
  have hstart : InWorld p { State.initial library p with started := true } .initial :=
    ⟨rfl, rfl, rfl, rfl, .nil⟩
  obtain ⟨a, hpushed, hframe, hunentered, hfront⟩ := hstart.push ⟨0⟩ hshows [] none
  obtain ⟨hentered, hstanding⟩ := tick_entry hpushed hframe hunentered
  obtain ⟨n, hbetween, hempty⟩ := hmodule.run hentered hstanding hfront
  obtain ⟨m, hworld, hfinished⟩ := hdrains.run hbetween hempty
  have hsteps : (State.initial library p).after (2 + (n + m)) =
      ((State.start (State.initial library p)).tick.after n).after m := by
    rw [State.after_add, State.after_add]
    rfl
  have hsource : State.ofSource library url source = .ok (State.initial library p) := by
    rw [State.ofSource, Program.ofSource, hcompile, ← hprogram]
    rfl
  refine ⟨State.initial library p, (State.initial library p).after (2 + (n + m)), hsource, ?_, ?_⟩
  · refine runs_of_after ?_
    rw [hsteps]
    exact hfinished
  · rw [hsteps]
    exact ⟨hworld.output, hworld.heap⟩

/-- A module with a function that is called and deferred, and defers a function of its own. -/
private def nestedDefer : Block :=
  ⟨none, [], ⟨1, 0⟩, 9, [⟨.call "f" [.literal (.string "a")], ⟨1, 0⟩⟩, ⟨.defer "f" [], ⟨2, 0⟩⟩],
    [⟨some "f", ["x"], ⟨3, 0⟩, 7,
      [⟨.print (.name "x"), ⟨7, 1⟩⟩, ⟨.defer "g" [], ⟨8, 1⟩⟩, ⟨.ret, ⟨9, 0⟩⟩],
      [⟨some "g", [], ⟨4, 1⟩, 3, [⟨.print (.literal (.string "g")), ⟨5, 2⟩⟩, ⟨.ret, ⟨6, 1⟩⟩], []⟩]⟩]⟩

/-- A function that is called and deferred defers a function of its own each time. -/
theorem run_refines_nested_defer :
    ∃ source module s t, Source.compile source = .ok module ∧
      Evaluates module ⟨Heap.initial, [], ["a", "g", "undefined", "g"]⟩ ∧
      State.ofSource (fun _ => none) "main.mod" source = .ok s ∧ s.Runs t ∧
      t.output = ["a", "g", "undefined", "g"] := by
  have hcompile : Source.compile
      "call f '\"a\"'\ndefer f\nfunction f x\n function g\n  print \"g\"\n end\n print x\n defer g\nend\n" =
      .ok nestedDefer := by cbv
  have hevaluates : Evaluates nestedDefer ⟨Heap.initial, [], ["a", "g", "undefined", "g"]⟩ := by
    refine ⟨_, .call rfl rfl (.print rfl (.defer rfl rfl .ret)) (.defer rfl rfl .done), ?_⟩
    -- the function of the call, the deferred function, and the one that it defers
    refine .next rfl (.print rfl .ret) ?_
    refine .next rfl (.print rfl (.defer rfl rfl .ret)) ?_
    exact .next rfl (.print rfl .ret) (.empty rfl)
  obtain ⟨s, t, hs, ht, houtput, -⟩ := run_refines (fun _ => none) "main.mod" hcompile hevaluates
  exact ⟨_, _, s, t, hcompile, hevaluates, hs, ht, houtput⟩

end ScriptDebugger.Machine
