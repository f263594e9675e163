import ScriptDebugger.Proofs.Debug.Driven
/-!
# The bindings of frames

A frame starts with a binding for each parameter and one for each further name that its code
declares, and an assignment to a name that it does not bind adds one at the end. Parameters are not
compared with each other. So the names of a frame's bindings are those of the parameters, as often
as each is written there, and others that occur once.

Whoever looks a name up finds its first binding, and whoever gives it a value changes that one.

## Main results

* `drive_environments` — names and slots in every state that a machine gets to.
* `extends_initialBindings`, `Extends.define` — how the names of bindings go on from the parameters.
* `update?_split`, `lookup_split` — the first binding of a name is the one that counts.
* `State.Step.comes` — where the frames behind a step have their bindings from.
-/

namespace ScriptDebugger.Machine

open Source (Binding Instruction Op)

/-! ## The first binding of a name -/

section

variable {front back : List (String × Value)} {name : String}

theorem lookup_split (h : name ∉ front.map Prod.fst) (value : Value) :
    lookup name (front ++ (name, value) :: back) = some value := by
  have hfront : lookup name front = none := by
    rw [lookup, Option.map_eq_none_iff, List.find?_eq_none]
    intro p hp hsame
    apply h
    rw [← beq_iff_eq.1 hsame]
    exact List.mem_map_of_mem hp
  rw [lookup_append, hfront, Option.none_or, lookup_cons, if_pos rfl]

theorem update?_split (h : name ∉ front.map Prod.fst) (old new : Value) :
    update? name new (front ++ (name, old) :: back) = some (front ++ (name, new) :: back) := by
  induction front with
  | nil => simp [update?]
  | cons p rest ih =>
      rw [List.map_cons, List.mem_cons, not_or] at h
      have hkey : p.1 ≠ name := fun hsame => h.1 hsame.symm
      rw [List.cons_append, update?, if_neg hkey, ih h.2]
      rfl

theorem define_split (h : name ∉ front.map Prod.fst) (old new : Value) :
    define name new (front ++ (name, old) :: back) = front ++ (name, new) :: back := by
  rw [define, update?_split h]
  rfl

end

/-! ## The names of the bindings -/

/-- Behind the parameters come other names, each of them once. -/
def Extends (params names : List String) : Prop :=
  ∃ others, names = params ++ others ∧ others.Nodup ∧ ∀ name ∈ others, name ∉ params

namespace Extends

variable {params names : List String}

theorem refl (params : List String) : Extends params params := by
  refine ⟨[], ?_, List.nodup_nil, ?_⟩
  · rw [List.append_nil]
  · intro name hname
    cases hname

/-- A further name may be added. -/
theorem append (h : Extends params names) {name : String} (hname : name ∉ names) :
    Extends params (names ++ [name]) := by
  obtain ⟨others, rfl, hnodup, hdisjoint⟩ := h
  rw [List.mem_append, not_or] at hname
  refine ⟨others ++ [name], ?_, ?_, ?_⟩
  · rw [List.append_assoc]
  · rw [List.nodup_append]
    refine ⟨hnodup, List.nodup_singleton name, ?_⟩
    intro other hother last hlast hsame
    apply hname.2
    rw [← List.mem_singleton.1 hlast, ← hsame]
    exact hother
  · intro other hother
    rcases List.mem_append.1 hother with hother | hother
    · exact hdisjoint other hother
    · rw [List.mem_singleton.1 hother]
      exact hname.1

/-- No name occurs twice, unless a parameter does. -/
theorem nodup_iff (h : Extends params names) : names.Nodup ↔ params.Nodup := by
  obtain ⟨others, rfl, hnodup, hdisjoint⟩ := h
  rw [List.nodup_append]
  constructor
  · intro hall
    exact hall.1
  · intro hparams
    refine ⟨hparams, hnodup, ?_⟩
    intro param hparam other hother hsame
    apply hdisjoint other hother
    rw [← hsame]
    exact hparam

/-- A binding that gets a value keeps its place, or it is a new one. -/
theorem define {bindings : List (String × Value)} (h : Extends params (bindings.map Prod.fst))
    (name : String) (value : Value) :
    Extends params ((Machine.define name value bindings).map Prod.fst) := by
  rcases define_cases name value bindings with ⟨front, old, back, hold, hnew, -⟩ | ⟨hall, hnew⟩
  · rw [hnew, List.map_append, List.map_cons]
    rw [hold, List.map_append, List.map_cons] at h
    exact h
  · rw [hnew, List.map_append]
    apply h.append
    intro hname
    obtain ⟨p, hp, hsame⟩ := List.mem_map.1 hname
    exact hall p hp hsame

end Extends

theorem extends_declared {params : List String} (declared : List String)
    {bound : List (String × Value)} (h : Extends params (bound.map Prod.fst)) :
    Extends params
      ((declared.foldl
        (fun bs name => if bs.any (·.1 == name) then bs else bs ++ [(name, .uninitialized)])
        bound).map Prod.fst) := by
  induction declared generalizing bound with
  | nil => exact h
  | cons first rest ih =>
      rw [List.foldl_cons]
      apply ih
      by_cases hany : (bound.any (·.1 == first)) = true
      · rw [if_pos hany]
        exact h
      · rw [if_neg hany, List.map_append]
        apply h.append
        intro hname
        obtain ⟨p, hp, hsame⟩ := List.mem_map.1 hname
        apply hany
        rw [List.any_eq_true]
        exact ⟨p, hp, beq_iff_eq.2 hsame⟩

/-- A frame starts with its parameters and the further names that are declared. -/
theorem extends_initialBindings (params declared : List String) (args : List Value) :
    Extends params ((Activation.initialBindings params declared args).map Prod.fst) := by
  apply extends_declared
  rw [List.map_fst_zip]
  · exact .refl params
  · rw [List.length_append, List.length_replicate]
    omega

theorem ofParams_split {before after : List String} {param : String} (h : param ∉ before)
    (args : List Value) :
    Locals.ofParams (before ++ param :: after) args param =
      some (args[before.length]?.getD .undefined) := by
  induction before generalizing args with
  | nil =>
      cases args with
      | nil => simp [Locals.ofParams]
      | cons arg args => simp [Locals.ofParams]
  | cons first rest ih =>
      rw [List.mem_cons, not_or] at h
      have hfirst : first ≠ param := fun hsame => h.1 hsame.symm
      cases args with
      | nil => simpa [Locals.ofParams, hfirst] using ih h.2 []
      | cons arg args => simpa [Locals.ofParams, hfirst] using ih h.2 args

/-- At first, a parameter is bound to its argument: the one at the place where it is written first.
-/
theorem lookup_initialBindings_param {before after : List String} {param : String}
    (h : param ∉ before) (declared : List String) (args : List Value) :
    lookup param (Activation.initialBindings (before ++ param :: after) declared args) =
      some (args[before.length]?.getD .undefined) := by
  rw [Activation.initialBindings, lookup_declared, lookup_zip param _ args (Nat.le_refl _),
    ofParams_split h]
  rfl

/-! ## What a step does to bindings -/

/-- The name that an operation gives a value to in the frame that executes it. -/
def written? : Op → Option String
  | .store .declare name | .store .assign name => some name
  | _ => none

namespace State

/-- The frame and the name in it that the next small step gives a value to. -/
def written? (s : State) : Option (FrameId × String) :=
  s.execution?.bind fun x =>
    (s.program.instruction? x.unit x.offset).bind fun i =>
      (Machine.written? i.op).map fun name => (x.frame, name)

/-- The values that the next small step passes to the frame that it starts, if it starts one. -/
def passed (s : State) : List Value :=
  match s.stack with
  | [] => if s.started then (s.deferred.head?.map (·.args)).getD [] else []
  | top :: _ =>
    match (s.program.instruction? top.unit top.pc).map Instruction.op with
    | some (.call _ args) => (evaluateAll s.heap top args).2
    | _ => []

/-- Where a frame `b` has its bindings from: it is new, or it was there before and has the same
bindings, up to one that got a value. -/
inductive Comes (s : State) (written : Option (FrameId × String)) (b : Activation) : Prop
  /-- The frame is new. -/
  | new {code : CodeUnit} (hid : b.id = ⟨s.nextFrame⟩) (hunit : s.program.unit? b.unit = some code)
    (hbindings :
      b.bindings = Activation.initialBindings code.params code.declared s.passed)
  /-- The bindings are what they were. -/
  | kept {a : Activation} (ha : a ∈ s.stack) (hid : b.id = a.id) (hunit : b.unit = a.unit)
    (hbindings : b.bindings = a.bindings)
  /-- A name got a value. -/
  | written {a : Activation} {name : String} (value : Value) (ha : a ∈ s.stack)
    (hid : b.id = a.id) (hunit : b.unit = a.unit) (hwritten : written = some (a.id, name))
    (hbindings : b.bindings = define name value a.bindings)

variable {s : State} {top b : Activation} {below : List Activation}
  {written : Option (FrameId × String)}

theorem Comes.self (hb : b ∈ s.stack) : s.Comes written b := .kept hb rfl rfl rfl

/-- A frame that is put on the stack is new, and the others are as they come. -/
theorem comes_push {t : State} {unit : UnitId} {args : List Value} {callee : Option String}
    (hprogram : t.program = s.program) (hnext : t.nextFrame = s.nextFrame)
    (hargs : args = s.passed) (hstack : ∀ a ∈ t.stack, s.Comes written a)
    (hb : b ∈ (t.push unit args callee).stack) : s.Comes written b := by
  unfold push at hb
  split at hb
  · exact hstack b hb
  · rename_i code hcode
    rcases List.mem_cons.1 hb with rfl | hb
    · rw [hprogram] at hcode
      refine .new ?_ hcode ?_
      · rw [hnext]
      · rw [hargs]
    · exact hstack b hb

/-- The frames under the running one keep their bindings. -/
theorem comes_below (hstack : s.stack = top :: below) (hb : b ∈ below) : s.Comes written b := by
  apply Comes.self
  rw [hstack]
  exact List.mem_cons_of_mem top hb

/-- Where the running frame keeps its bindings, all do. -/
theorem comes_retop (hstack : s.stack = top :: below) {t : Activation} (hid : t.id = top.id)
    (hunit : t.unit = top.unit) (hbindings : t.bindings = top.bindings)
    (hb : b ∈ t :: below) : s.Comes written b := by
  rcases List.mem_cons.1 hb with rfl | hb
  · refine .kept ?_ hid hunit hbindings
    rw [hstack]
    exact List.mem_cons_self
  · exact comes_below hstack hb

/-- Behind a call, the caller keeps its bindings. -/
theorem comes_resumeCaller (hstack : s.stack = top :: below) (hb : b ∈ resumeCaller below) :
    s.Comes written b := by
  cases below with
  | nil => cases hb
  | cons caller rest =>
      rw [resumeCaller] at hb
      split at hb
      · rcases List.mem_cons.1 hb with hb | hb
        · have hcaller : caller ∈ s.stack := by
            rw [hstack]
            exact List.mem_cons_of_mem top List.mem_cons_self
          refine .kept hcaller ?_ ?_ ?_
          · rw [hb]; rfl
          · rw [hb]; rfl
          · rw [hb]; rfl
        · exact comes_below hstack (List.mem_cons_of_mem caller hb)
      · exact comes_below hstack hb

/-- An assignment gives a value to its name in the running frame, or it leaves the bindings. -/
theorem bindings_store (heap : Heap) (bindings : List (String × Value)) (binding : Binding)
    (name : String) (value : Value) :
    (store heap bindings binding name value).2 = bindings ∨
      Machine.written? (.store binding name) = some name ∧
        (store heap bindings binding name value).2 = define name value bindings := by
  cases binding with
  | globalProperty => exact Or.inl rfl
  | declare => exact Or.inr ⟨rfl, rfl⟩
  | assign =>
      cases hupdate : update? name value bindings with
      | some rebound =>
          refine Or.inr ⟨rfl, ?_⟩
          rw [store, define, hupdate]
          rfl
      | none =>
          by_cases hglobal : (heap.property? Heap.globalId name).isSome
          · apply Or.inl
            rw [store, hupdate]
            simp only [hglobal, if_true]
          · refine Or.inr ⟨rfl, ?_⟩
            rw [store, define, hupdate]
            simp only [hglobal]
            rfl

/-- An executed instruction gives a value to a name in the running frame, or starts a frame with the
arguments, or leaves the bindings. -/
theorem comes_perform {i : Instruction} (hstack : s.stack = top :: below)
    (hinstr : s.program.instruction? top.unit top.pc = some i)
    (hwritten : written = (Machine.written? i.op).map fun name => (top.id, name))
    (hb : b ∈ (s.perform top below i.op).stack) : s.Comes written b := by
  have htop : top ∈ s.stack := by
    rw [hstack]
    exact List.mem_cons_self
  cases hop : i.op with
  | store binding name =>
      rw [hop] at hb hwritten
      rcases List.mem_cons.1 hb with hb | hb
      · have hid : b.id = top.id := by
          rw [hb]
          rfl
        have hunit : b.unit = top.unit := by
          rw [hb]
          rfl
        have hbindings :
            b.bindings = (store s.heap top.bindings binding name top.accumulator).2 := by
          rw [hb]
          rfl
        rcases bindings_store s.heap top.bindings binding name top.accumulator with hsame | hstore
        · exact .kept htop hid hunit (hbindings.trans hsame)
        · rw [hstore.1] at hwritten
          exact .written top.accumulator htop hid hunit hwritten (hbindings.trans hstore.2)
      · exact comes_below hstack hb
  | call name args =>
      rw [hop, perform] at hb
      cases hcallee : s.program.lookupFunction top.unit name with
      | none =>
          rw [hcallee] at hb
          exact comes_retop hstack (t := top.next) rfl rfl rfl hb
      | some callee =>
          rw [hcallee] at hb
          have hargs : (evaluateAll s.heap top args).2 = s.passed := by
            rw [passed, hstack]
            simp only [hinstr, Option.map_some, hop]
          refine comes_push ?_ ?_ hargs ?_ hb
          · rfl
          · rfl
          · intro a ha
            exact comes_retop hstack (t := { top with awaitingReturn := true }) rfl rfl rfl ha
  | defer name args =>
      rw [hop, perform] at hb
      split at hb
      · exact comes_retop hstack (t := top.next) rfl rfl rfl hb
      · exact comes_retop hstack (t := top.next) rfl rfl rfl hb
  | load value | print value | ret =>
      rw [hop, perform] at hb
      refine comes_retop hstack ?_ ?_ ?_ hb
      · rfl
      · rfl
      · rfl

/-- Where the frames behind a small step have their bindings from. -/
theorem Step.comes {hooks : Hooks} {t : State} {event : Option Event} (h : Step hooks s t event)
    (hsound : s.control.Sound) (hb : b ∈ t.stack) : s.Comes s.written? b := by
  cases h with
  | start hstarted =>
      have hnil : s.stack = [] := List.map_eq_nil_iff.1 (hsound.unstarted hstarted).1
      have hargs : [] = s.passed := by
        rw [passed, hnil]
        simp [hstarted]
      refine comes_push ?_ ?_ hargs ?_ hb
      · rfl
      · rfl
      · intro a ha
        exact .self ha
  | finish => exact .self hb
  | @unqueue call rest hstarted hstack hdeferred =>
      have hargs : call.args = s.passed := by
        rw [passed, hstack]
        simp [hstarted, hdeferred]
      refine comes_push ?_ ?_ hargs ?_ hb
      · rfl
      · rfl
      · intro a ha
        exact .self ha
  | enter _ hstack | report _ hstack | consider _ hstack =>
      refine comes_retop hstack ?_ ?_ ?_ hb
      · rfl
      · rfl
      · rfl
  | leave _ hstack =>
      rw [pop, hstack, List.tail_cons] at hb
      exact comes_resumeCaller hstack hb
  | @execute top below i hstarted hstack hentered hinstr hseen =>
      apply comes_perform hstack hinstr _ hb
      simp [State.written?, execution?, hstack, hstarted, hentered, hseen, hinstr]

end State

end ScriptDebugger.Machine

namespace ScriptDebugger.Debug

open Machine (Activation Extends Program State)
open Source (Binding)

/-! ## What a drive does to bindings -/

/-- The frame and the name in it that a drive gives a value to, if there is such a binding. -/
def Drive.written? (s : State) : Drive → Option (FrameId × String)
  | .advance _ => s.written?
  | .setBreakpoint _ _ | .clearBreakpoint _ _ => none
  | .setVariable c reference name _ =>
    match c.target reference with
    | .ok (.frame index) => (c.findFrame s index).toOption.map fun frame => (frame, name)
    | _ => none

/-- None of some drives gives a value to a name in a frame. -/
def Spares (frame : FrameId) (name : String) (s : State) : List Drive → Prop
  | [] => True
  | d :: rest => d.written? s ≠ some (frame, name) ∧ Spares frame name (d.act s) rest

section

variable {s : State} {a b : Activation}

/-- A frame on the stack is the only one with its number. -/
theorem eq_of_id_eq (hsound : s.control.Sound) (ha : a ∈ s.stack) (hb : b ∈ s.stack)
    (hid : a.id = b.id) : a = b :=
  List.inj_on_of_nodup_map (State.nodup_ids hsound) ha hb hid

theorem activation?_of_mem (hsound : s.control.Sound) (ha : a ∈ s.stack) :
    s.activation? a.id = some a := by
  cases hfound : s.activation? a.id with
  | none =>
      rw [State.activation?, List.find?_eq_none] at hfound
      exact absurd (beq_iff_eq.2 rfl) (hfound a ha)
  | some b =>
      have hb : b ∈ s.stack := List.mem_of_find?_eq_some hfound
      have hid : b.id = a.id := by simpa using List.find?_some hfound
      rw [eq_of_id_eq hsound hb ha hid]

theorem number_lt (hsound : s.control.Sound) (ha : a ∈ s.stack) : a.id.number < s.nextFrame :=
  hsound.numbered a.control (List.mem_map_of_mem ha)

/-- Where the frames behind a drive have their bindings from. -/
theorem comes_act (hsound : s.control.Sound) (d : Drive) (hb : b ∈ (d.act s).stack) :
    s.Comes (d.written? s) b := by
  cases d with
  | advance hooks => exact (State.step_advance hooks s).comes hsound hb
  | setBreakpoint unit offset =>
      obtain ⟨places, hplaces⟩ := State.setBreakpoint_eq s unit offset
      change b ∈ (Engine.setBreakpoint s unit offset).stack at hb
      rw [hplaces] at hb
      exact .self hb
  | clearBreakpoint unit offset => exact .self hb
  | setVariable c reference name value =>
      change b ∈ (c.setVariable s reference name value).1.stack at hb
      rcases (stack_setVariable c s reference name value).2 with hsame | hset
      · rw [hsame] at hb
        exact .self hb
      · obtain ⟨index, frame, a, bindings, htarget, hframe, ha, hbindings, hmap⟩ := hset
        have hwritten : (Drive.setVariable c reference name value).written? s =
            some (frame, name) := by
          simp only [Drive.written?, htarget, hframe]
          rfl
        have hdefine : Machine.define name (importedValue s value) a.bindings = bindings := by
          rw [Machine.define, hbindings]
          rfl
        rw [hmap] at hb
        obtain ⟨b, hold, rfl⟩ := List.mem_map.1 hb
        by_cases hid : b.id = frame
        · rw [if_pos hid]
          rw [← hid, activation?_of_mem hsound hold] at ha
          obtain rfl := Option.some.inj ha
          rw [← hid] at hwritten
          exact .written (importedValue s value) hold rfl rfl hwritten hdefine.symm
        · rw [if_neg hid]
          exact .self hold

/-- A drive that does not give a value to a name in a frame leaves what the name is bound to. -/
theorem binding?_act (hsound : s.control.Sound) (d : Drive) {name : String} (ha : a ∈ s.stack)
    (hb : b ∈ (d.act s).stack) (hid : b.id = a.id) (hspared : d.written? s ≠ some (a.id, name)) :
    b.binding? name = a.binding? name := by
  cases comes_act hsound d hb with
  | new hnew =>
      have hnumber := number_lt hsound ha
      rw [← hid, hnew] at hnumber
      exact absurd hnumber (Nat.lt_irrefl _)
  | kept hold hsame _ hbindings =>
      have heq := eq_of_id_eq hsound hold ha (hsame.symm.trans hid)
      rw [Activation.binding?, Activation.binding?, hbindings, heq]
  | @written old other value hold hsame _ hwritten hbindings =>
      have heq := eq_of_id_eq hsound hold ha (hsame.symm.trans hid)
      have hne : name ≠ other := by
        intro hname
        apply hspared
        rw [hwritten, heq, hname]
      rw [Activation.binding?, Activation.binding?, hbindings, heq]
      exact Machine.lookup_define_ne value a.bindings hne

/-- A frame with the next number is new. -/
theorem new_of_comes (hsound : s.control.Sound) {written : Option (FrameId × String)}
    (h : s.Comes written b) (hid : b.id = ⟨s.nextFrame⟩) :
    ∃ code, s.program.unit? b.unit = some code ∧
      b.bindings = Activation.initialBindings code.params code.declared s.passed := by
  have hold : ∀ a ∈ s.stack, b.id ≠ a.id := by
    intro a ha hsame
    have hnumber := number_lt hsound ha
    rw [← hsame, hid] at hnumber
    exact Nat.lt_irrefl _ hnumber
  cases h with
  | @new code _ hunit hbindings => exact ⟨code, hunit, hbindings⟩
  | kept ha hsame => exact absurd hsame (hold _ ha)
  | written _ ha hsame => exact absurd hsame (hold _ ha)

/-- As long as a frame is there and no drive gives a value to a name in it, the name is bound to the
same. -/
theorem binding?_drive (hsound : s.control.Sound) {name : String} (ds : List Drive)
    (ha : a ∈ s.stack) (hb : b ∈ (drive s ds).stack) (hid : b.id = a.id)
    (hspares : Spares a.id name s ds) : b.binding? name = a.binding? name := by
  induction ds generalizing s a with
  | nil => rw [eq_of_id_eq hsound hb ha hid]
  | cons d rest ih =>
      obtain ⟨hspared, hrest⟩ := hspares
      have hnext : (d.act s).control.Sound := sound_drive hsound [d]
      by_cases hthere : ∃ between ∈ (d.act s).stack, between.id = a.id
      · obtain ⟨between, hbetween, hsame⟩ := hthere
        rw [← hsame] at hrest
        rw [ih hnext hbetween hb (hid.trans hsame.symm) hrest,
          binding?_act hsound d ha hbetween hsame hspared]
      · -- A frame that has left does not come back.
        have hnone : Engine.frame? (d.act s) a.id = none := by
          rw [frame?_eq_none_iff]
          intro between hbetween hsame
          exact hthere ⟨between, hbetween, hsame⟩
        have hold := number_lt hsound ha
        have hnumbers := nextFrame_drive hsound [d]
        have hlater : a.id.number < (d.act s).nextFrame := Nat.lt_of_lt_of_le hold hnumbers
        have hgone := frame?_drive_of_gone hnext hlater hnone rest
        rw [frame?_eq_none_iff] at hgone
        exact absurd hid (hgone b hb)

end

/-- The names of a frame's bindings go on from the parameters of its unit. -/
theorem extends_drive (library : String → Option String) (program : Program) (ds : List Drive) :
    ∀ a ∈ (drive (State.initial library program) ds).stack, ∃ code,
      program.unit? a.unit = some code ∧ Extends code.params (a.bindings.map Prod.fst) := by
  have hinitial := Machine.sound_initial library program
  induction ds using List.reverseRecOn with
  | nil =>
      intro a ha
      cases ha
  | append_singleton ds d ih =>
      intro b hb
      rw [drive_append] at hb
      cases comes_act (sound_drive hinitial ds) d hb with
      | @new code _ hunit hbindings =>
          rw [program_drive hinitial ds] at hunit
          refine ⟨code, hunit, ?_⟩
          rw [hbindings]
          exact Machine.extends_initialBindings _ _ _
      | kept ha _ hunit hbindings =>
          rw [hunit, hbindings]
          exact ih _ ha
      | written value ha _ hunit _ hbindings =>
          obtain ⟨code, hcode, hextends⟩ := ih _ ha
          rw [hunit, hbindings]
          exact ⟨code, hcode, hextends.define _ value⟩

/-! ## One slot for each name -/

/-- The bindings of the frame `a` of a machine; `params` are the parameters of its unit. -/
structure Environment (s : State) (a : Activation) (params : List String) : Prop where
  /-- Behind the parameters come other names, each of them once. -/
  names : Extends params (Engine.bindingNames s a.id)
  /-- So no name is listed twice, unless a parameter is written twice. -/
  distinct : (Engine.bindingNames s a.id).Nodup ↔ params.Nodup
  /-- The first binding of a name is the one that is shown and read, and the one that the debugger
  and the program set. -/
  slot : ∀ front name value back, a.bindings = front ++ (name, value) :: back →
    name ∉ front.map Prod.fst →
      Engine.binding? s a.id name = some value ∧
      State.read s.heap a name = (if value = .uninitialized then .undefined else value) ∧
      (∀ new, Engine.setBinding s a.id name new =
        .ok { s with
          stack := s.stack.map fun b =>
            if b.id = a.id then { b with bindings := front ++ (name, new) :: back } else b }) ∧
      ∀ new binding, binding ≠ Binding.globalProperty →
        State.store s.heap a.bindings binding name new =
          (s.heap, front ++ (name, new) :: back)

theorem environment_of_extends {s : State} (hsound : s.control.Sound) {a : Activation}
    (ha : a ∈ s.stack) {params : List String} (h : Extends params (a.bindings.map Prod.fst)) :
    Environment s a params := by
  have hactivation := activation?_of_mem hsound ha
  have hnames : Engine.bindingNames s a.id = a.bindings.map Prod.fst := by
    show ((s.activation? a.id).map fun a => a.bindings.map Prod.fst).getD [] = _
    rw [hactivation]
    rfl
  refine ⟨?_, ?_, ?_⟩
  · rw [hnames]
    exact h
  · rw [hnames]
    exact h.nodup_iff
  · intro front name value back hbindings hfirst
    have hlookup : a.binding? name = some value := by
      rw [Activation.binding?, hbindings]
      exact Machine.lookup_split hfirst value
    refine ⟨?_, ?_, ?_, ?_⟩
    · rw [binding?_eq hactivation]
      exact hlookup
    · rw [State.read, hlookup]
      cases value <;> rfl
    · intro new
      show s.setBinding a.id name new = _
      rw [State.setBinding, hactivation]
      simp only [hbindings, Machine.update?_split hfirst value new]
    · intro new binding hlocal
      cases binding with
      | globalProperty => exact absurd rfl hlocal
      | declare => rw [State.store, hbindings, Machine.define_split hfirst]
      | assign =>
          rw [State.store, hbindings, Machine.update?_split hfirst]

/-- After any drives from the start of a program, a name that a frame lists is one slot for whoever
shows, reads or sets it, and it is listed once if no parameter is written twice. A parameter is
bound to the argument at the place where it is written first, until it gets another value. -/
theorem drive_environments (library : String → Option String) (program : Program)
    (ds : List Drive) :
    (∀ a ∈ (drive (State.initial library program) ds).stack, ∃ code,
      program.unit? a.unit = some code ∧
        Environment (drive (State.initial library program) ds) a code.params) ∧
      ∀ front hooks back, ds = front ++ .advance hooks :: back →
        let before := drive (State.initial library program) front
        let behind := drive (State.initial library program) (front ++ [.advance hooks])
        ∀ a ∈ behind.stack, a.id = ⟨before.nextFrame⟩ →
          ∀ code earlier param later, program.unit? a.unit = some code →
            code.params = earlier ++ param :: later → param ∉ earlier →
            Spares a.id param behind back →
            (Engine.frame? (drive (State.initial library program) ds) a.id).isSome →
            Engine.binding? (drive (State.initial library program) ds) a.id param =
              some (before.passed[earlier.length]?.getD .undefined) := by
  have hinitial := Machine.sound_initial library program
  have hsound := sound_drive hinitial ds
  refine ⟨?_, ?_⟩
  · intro a ha
    obtain ⟨code, hcode, hextends⟩ := extends_drive library program ds a ha
    exact ⟨code, hcode, environment_of_extends hsound ha hextends⟩
  · intro front hooks back hds before behind a ha hid code earlier param later hcode hparams hfirst
      hspares hthere
    have hbefore : before.control.Sound := sound_drive hinitial front
    have hbehind : behind.control.Sound := sound_drive hinitial (front ++ [.advance hooks])
    have hact : behind = Drive.act before (.advance hooks) := drive_append _ front [.advance hooks]
    have hend : drive (State.initial library program) ds = drive behind back := by
      rw [hds, hact]
      exact drive_append _ front (.advance hooks :: back)
    rw [hend] at hthere hsound ⊢
    obtain ⟨b, hb, hsame⟩ : ∃ b ∈ (drive behind back).stack, b.id = a.id := by
      by_contra hnot
      have hnone : Engine.frame? (drive behind back) a.id = none := by
        rw [frame?_eq_none_iff]
        intro b hb hsame
        exact hnot ⟨b, hb, hsame⟩
      rw [hnone] at hthere
      cases hthere
    have hkept := binding?_drive hbehind back ha hb hsame hspares
    have hstart : a.binding? param = some (before.passed[earlier.length]?.getD .undefined) := by
      rw [hact] at ha
      obtain ⟨code', hunit, hbindings⟩ :=
        new_of_comes hbefore (comes_act hbefore (.advance hooks) ha) hid
      have hprogram : before.program = program := program_drive hinitial front
      rw [hprogram, hcode] at hunit
      obtain rfl := Option.some.inj hunit
      rw [Activation.binding?, hbindings, hparams]
      exact Machine.lookup_initialBindings_param hfirst _ _
    rw [← hsame, binding?_eq (activation?_of_mem hsound hb), ← hstart]
    exact hkept

/-- What is seen of the bindings of the frame with the second number after some small steps. -/
private def secondFrame (program : Program) (steps : Nat) :
    List String × List (List (String × Value)) × Option Value :=
  let s := drive (State.initial (fun _ => none) program) (List.replicate steps (.advance .none))
  (Engine.bindingNames s ⟨2⟩, s.stack.map (·.bindings), Engine.binding? s ⟨2⟩ "a")

/-- A parameter that is written twice is listed twice, and its second argument cannot be read. -/
theorem bindingNames_param_twice :
    ∃ program s,
      Program.ofSource "main.mod" "call f true false\nfunction f a a\n  print a\nend\n" =
        .ok program ∧
      s = drive (State.initial (fun _ => none) program) (List.replicate 5 (.advance .none)) ∧
      Engine.bindingNames s ⟨2⟩ = ["a", "a"] ∧ ¬(Engine.bindingNames s ⟨2⟩).Nodup ∧
      s.stack.map (·.bindings) = [[("a", .bool true), ("a", .bool false)], []] ∧
      Engine.binding? s ⟨2⟩ "a" = some (.bool true) := by
  have hcomputed :
      ((Program.ofSource "main.mod"
          "call f true false\nfunction f a a\n  print a\nend\n").toOption.bind
        fun program => some (secondFrame program 5)) =
      some
        (["a", "a"], [[("a", .bool true), ("a", .bool false)], []], some (.bool true)) := by cbv
  obtain ⟨program, hsource, hframe⟩ := Program.exists_of_ofSource hcomputed
  have hframe := Option.some.inj hframe
  have hnames := congrArg Prod.fst hframe
  have hbindings := congrArg (fun seen => seen.2.1) hframe
  have hvalue := congrArg (fun seen => seen.2.2) hframe
  refine ⟨program, _, hsource, rfl, hnames, ?_, hbindings, hvalue⟩
  intro hnodup
  change (secondFrame program 5).1.Nodup at hnodup
  rw [hnames] at hnodup
  revert hnodup
  decide

end ScriptDebugger.Debug
