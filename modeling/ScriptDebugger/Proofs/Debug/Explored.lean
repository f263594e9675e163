import ScriptDebugger.Proofs.Debug.PausedStack
import ScriptDebugger.Proofs.Debug.References
import ScriptDebugger.Proofs.Machine.Boundaries
import ScriptDebugger.Proofs.Machine.Objects
/-!
# What a debugger and its machine get to

A debugger and its machine get from the start of a compiled program to any of their states by small
steps under any hooks, by events that the debugger is told of, by ends of pauses, and by messages of
the front end. Nothing is assumed about the order of these, so a state in the middle of a run is
among them, and so is one that no front end brings about.

What holds in all of these states is one invariant: the objects of the machine are in order, its
stack has the shape of calls, and the references that were given out belong to objects that there
are.

## Main results

* `explored_of_reached` — a debugger that is reached from stop to stop is among them.
* `sets_setVariable` — the ways in which an assignment can go.
* `Accounted.setVariable` — an assignment keeps the invariant, whether it is accepted or not.
* `Explored.accounted` — the invariant holds.
-/

namespace ScriptDebugger.Debug

open Machine (Heap State Activation Program ObjectIn)
open Wire (HostMessage Variable)

/-- The debugger `c` and the machine `s` are reached from the start of a compiled program. -/
inductive Explored : Context → State → Prop
  /-- The program has not been started. -/
  | start {library : String → Option String} {url source : String} {program : Program}
    (hsource : Program.ofSource url source = .ok program) :
    Explored .initial (State.initial library program)
  /-- The machine takes a small step, whatever the hooks are. -/
  | advance {c : Context} {s : State} (hooks : Hooks) (h : Explored c s) :
    Explored c (Engine.advance hooks s).1
  /-- The debugger is told of an event. -/
  | event {c : Context} {s : State} (event : Event) (h : Explored c s) :
    Explored (c.onEvent s event).1 s
  /-- A pause is ended. -/
  | resume {c : Context} {s : State} (mode : RunMode) (h : Explored c s) :
    Explored (c.resume mode) s
  /-- A message of the front end is served. -/
  | perform {c : Context} {s : State} (message : HostMessage) (h : Explored c s) :
    Explored (Agent.perform c s message).1 (Agent.perform c s message).2.1

/-- A run is made of small steps and events. -/
theorem Explored.runWithin {c c' : Context} {s s' : State} {stop : Option Stop} {fuel : Nat}
    (h : Explored c s) (hrun : c.runWithin fuel s = some (c', s', stop)) : Explored c' s' := by
  refine runWithin_induct (P := fun c s => Explored c s → Explored c' s') ?_ ?_ ?_ ?_ hrun h
  · intro c s next hadvance hnext h
    have hstep := h.advance c.hooks
    rw [hadvance] at hstep
    exact hnext hstep
  · intro s _ hadvance h
    have hstep := h.advance c'.hooks
    rwa [hadvance] at hstep
  · intro c d s next event _ hadvance hevent hnext h
    have hstep := (h.advance c.hooks).event event
    rw [hadvance] at hstep
    rw [hevent] at hstep
    exact hnext hstep
  · intro c s event reason _ _ hadvance hevent h
    have hstep := (h.advance c.hooks).event event
    rw [hadvance] at hstep
    rwa [hevent] at hstep

/-- The pause of a program behind its first statement, if it is reached by one step over it. -/
def secondPause (program : Program) : Option (Context × State) :=
  (Context.initial.runWithin 3 (State.initial (fun _ => none) program)).bind fun loaded =>
    ((loaded.1.resume .over).runWithin 10 loaded.2.1).map fun paused => (paused.1, paused.2.1)

theorem explored_of_secondPause {url source : String} {program : Program} {c : Context} {s : State}
    (hsource : Program.ofSource url source = .ok program)
    (h : secondPause program = some (c, s)) : Explored c s := by
  obtain ⟨⟨loaded, first, stop⟩, hfirst, hrest⟩ := Option.bind_eq_some_iff.1 h
  obtain ⟨⟨paused, second, stop'⟩, hsecond, hsame⟩ := Option.map_eq_some_iff.1 hrest
  obtain ⟨rfl, rfl⟩ := Prod.mk.inj hsame
  exact (((Explored.start hsource).runWithin hfirst).resume .over).runWithin hsecond

/-- What is reached from stop to stop is explored. -/
theorem explored_of_reached {c : Context} {s : State} (h : Reached c s) : Explored c s := by
  induction h with
  | start hsource => exact .start hsource
  | select path _ ih => exact ih.perform (.loadProgram path)
  | @serve c c' s s' message reply _ hserve ih =>
      have hstep := ih.perform message
      rwa [hserve] at hstep
  | resume mode _ ih => exact ih.resume mode
  | run _ _ hrun ih => exact ih.runWithin hrun

/-! ## What an assignment is given -/

/-- The machine with the value of a document built in it. -/
def imported (s : State) (json : Json) : State := { s with heap := (s.heap.importJson json).1 }

/-- The value of a document. -/
def importedValue (s : State) (json : Json) : Value := (s.heap.importJson json).2

/-- What an assignment does, in the order in which it finds out. -/
inductive Sets (c : Context) (s : State) (reference : Nat) (name : String) (json : Json) :
    State → Except QueryError (Context × Variable) → Prop
  /-- The reference means nothing. -/
  | lost {e : QueryError} (htarget : c.target reference = .error e) :
    Sets c s reference name json s (.error e)
  /-- The frame is not there. -/
  | frameless {index : Nat} {e : QueryError} (htarget : c.target reference = .ok (.frame index))
    (hframe : c.findFrame s index = .error e) : Sets c s reference name json s (.error e)
  /-- The machine refuses to set the binding. -/
  | unbound {index : Nat} {frame : FrameId} {e : EngineError}
    (htarget : c.target reference = .ok (.frame index)) (hframe : c.findFrame s index = .ok frame)
    (hrefused : Engine.setBinding (imported s json) frame name (importedValue s json) = .error e) :
    Sets c s reference name json (imported s json) (.error (.engine e))
  /-- The machine refuses to set the property. -/
  | unowned {id : ObjectId} {e : EngineError} (htarget : c.target reference = .ok (.object id))
    (hrefused : Engine.setProperty (imported s json) id name (importedValue s json) = .error e) :
    Sets c s reference name json (imported s json) (.error (.engine e))
  /-- A property is set. -/
  | property {id : ObjectId} {o : Machine.HeapObject}
    (htarget : c.target reference = .ok (.object id))
    (hobject : (imported s json).heap.get? id = some o) {t : State}
    (ht : t = { imported s json with
      heap := (imported s json).heap.defineProperty id name (importedValue s json) }) :
    Sets c s reference name json t (.ok (c.readProperty t id name))
  /-- A binding is set. -/
  | binding {index : Nat} {frame : FrameId} {a : Activation} {bindings : List (String × Value)}
    (htarget : c.target reference = .ok (.frame index)) (hframe : c.findFrame s index = .ok frame)
    (ha : s.activation? frame = some a)
    (hbindings : Machine.update? name (importedValue s json) a.bindings = some bindings) {t : State}
    (ht : t = { imported s json with
      stack := s.stack.map fun b => if b.id = frame then { b with bindings } else b }) :
    Sets c s reference name json t (.ok (c.readBinding t frame name))

theorem sets_setVariable (c : Context) (s : State) (reference : Nat) (name : String) (json : Json) :
    Sets c s reference name json (c.setVariable s reference name json).1
      (c.setVariable s reference name json).2 := by
  have himport : Engine.importValue s json = (imported s json, importedValue s json) := rfl
  unfold Context.setVariable
  rcases htarget : c.target reference with e | index | id
  · exact .lost htarget
  · cases hframe : c.findFrame s index with
    | error e =>
        simp only [hframe]
        exact .frameless htarget hframe
    | ok frame =>
        simp only [hframe, himport]
        cases hset : Engine.setBinding (imported s json) frame name (importedValue s json) with
        | error e => exact .unbound htarget hframe hset
        | ok t =>
            obtain ⟨a, bindings, ha, hbindings, ht⟩ := setBinding_ok hset
            exact .binding htarget hframe ha hbindings ht
  · simp only [himport]
    cases hset : Engine.setProperty (imported s json) id name (importedValue s json) with
    | error e => exact .unowned htarget hset
    | ok t =>
        obtain ⟨⟨o, ho⟩, ht⟩ := setProperty_ok hset
        exact .property htarget ho ht

/-! ## What is accounted for -/

/-- The references that were given out belong to objects that there are. -/
def Known (handles : Handles) (size : Nat) : Prop :=
  ∀ id number, Handles.find id handles.byObject = some number → id.number < size

/-- The debugger and its machine hold only what there is. -/
structure Accounted (c : Context) (s : State) : Prop where
  sorted : s.Sorted
  shape : s.control.Sound
  handles : c.handles.Sound
  known : Known c.handles s.heap.size

/-! ### References -/

section

variable {σ : Type} [Engine σ] {handles : Handles} {size size' : Nat}

theorem Known.mono (h : Known handles size) (hsize : size ≤ size') : Known handles size' :=
  fun id number hfound => Nat.lt_of_lt_of_le (h id number hfound) hsize

theorem known_clear (handles : Handles) (size : Nat) : Known handles.clear size := nofun

theorem Known.describe (h : Known handles size) (engine : σ) (name : String) {value : Value}
    (hvalue : ObjectIn 0 size value) :
    Known (Context.describe engine handles name value).1 size := by
  cases value with
  | object id =>
      intro other number hfound
      change Handles.find other (handles.allocate id).1.byObject = some number at hfound
      unfold Handles.allocate at hfound
      split at hfound
      · exact h other number hfound
      · by_cases hid : other = id
        · rw [hid]
          exact (hvalue id rfl).2
        · rw [Handles.find_cons_ne hid] at hfound
          exact h other number hfound
  | _ => exact h

theorem Known.describeAll (h : Known handles size) (engine : σ) {entries : List (String × Value)}
    (hentries : ∀ p ∈ entries, ObjectIn 0 size p.2) :
    Known (Context.describeAll engine handles entries).1 size := by
  induction entries generalizing handles with
  | nil => exact h
  | cons entry rest ih =>
      obtain ⟨hfirst, hrest⟩ := List.forall_mem_cons.1 hentries
      exact ih (h.describe engine entry.1 hfirst) hrest

end

/-! ### What is shown -/

section

variable {c : Context} {s : State}

theorem objectIn_getD {low high : Nat} {found : Option Value}
    (h : ∀ v, found = some v → ObjectIn low high v) :
    ObjectIn low high (found.getD .undefined) := by
  cases found with
  | none => exact Machine.State.objectIn_undefined
  | some v => exact h v rfl

theorem objectIn_binding (h : s.Sorted) (frame : FrameId) (name : String) :
    ObjectIn 1 s.heap.size ((Engine.binding? s frame name).getD .undefined) := by
  refine objectIn_getD fun v hv => ?_
  obtain ⟨a, ha, hfound⟩ := Option.bind_eq_some_iff.1 hv
  exact (h.frames a (List.mem_of_find?_eq_some ha)).bindings _ (Machine.mem_of_lookup hfound)

theorem objectIn_readProperty (h : s.Sorted) (id : ObjectId) (name : String) :
    ObjectIn (id.number + 1) s.heap.size ((Engine.property? s id name).getD .undefined) :=
  objectIn_getD fun _ hv => Machine.State.objectIn_property h.ordered hv

theorem objectIn_this {p : Program} {frame : FrameId} {size : Nat} {stack : List Activation}
    (hframes : ∀ a ∈ stack, a.Has size) {info : FrameInfo}
    (hinfo : State.frameInfo? p frame stack = some info) {v : Value} (hthis : info.this = some v) :
    ObjectIn 0 size v := by
  induction stack with
  | nil => cases hinfo
  | cons a below ih =>
      obtain ⟨ha, hbelow⟩ := List.forall_mem_cons.1 hframes
      rw [State.frameInfo?] at hinfo
      split at hinfo
      · obtain rfl := Option.some.inj hinfo
        obtain rfl := Option.some.inj hthis
        exact ha.this
      · exact ih hbelow hinfo

theorem objectIn_frameEntries (h : s.Sorted) (frame : FrameId) :
    ∀ p ∈ Context.frameEntries s frame, ObjectIn 0 s.heap.size p.2 := by
  have hbindings : ∀ p ∈ (Engine.bindingNames s frame).map fun name =>
      (name, (Engine.binding? s frame name).getD .undefined), ObjectIn 0 s.heap.size p.2 := by
    intro p hp
    obtain ⟨name, -, rfl⟩ := List.mem_map.1 hp
    exact (objectIn_binding h frame name).mono (Nat.zero_le _) (Nat.le_refl _)
  intro p hp
  unfold Context.frameEntries at hp
  split at hp
  · rename_i this hthis
    obtain ⟨info, hinfo, hthis⟩ := Option.bind_eq_some_iff.1 hthis
    split at hp
    · rcases List.mem_append.1 hp with hp | hp
      · exact hbindings p hp
      · obtain rfl := List.mem_singleton.1 hp
        exact objectIn_this h.frames hinfo hthis
    · exact hbindings p hp
  · exact hbindings p hp

theorem objectIn_objectEntries (h : s.Sorted) (id : ObjectId) :
    ∀ p ∈ Context.objectEntries s id, ObjectIn (id.number + 1) s.heap.size p.2 := by
  intro p hp
  obtain ⟨name, -, rfl⟩ := List.mem_map.1 hp
  exact objectIn_readProperty h id name

theorem objectIn_entriesBehind (h : s.Sorted) {reference : Nat} {entries : List (String × Value)}
    (hentries : c.entriesBehind s reference = .ok entries) :
    ∀ p ∈ entries, ObjectIn 0 s.heap.size p.2 := by
  unfold Context.entriesBehind at hentries
  split at hentries
  · cases hentries
  · rename_i id _
    obtain rfl := Except.ok.inj hentries
    intro p hp
    exact (objectIn_objectEntries h id p hp).mono (Nat.zero_le _) (Nat.le_refl _)
  · rename_i index _
    cases hframe : c.findFrame s index with
    | error e =>
        rw [hframe] at hentries
        cases hentries
    | ok frame =>
        rw [hframe] at hentries
        obtain rfl := Except.ok.inj hentries
        exact objectIn_frameEntries h frame

end

/-! ### Requests -/

namespace Accounted

variable {c : Context} {s : State}

theorem sorted_of_eq {t : State} (h : s.Sorted) (hheap : t.heap = s.heap)
    (hstack : t.stack = s.stack) (hdeferred : t.deferred = s.deferred) : t.Sorted := by
  refine ⟨?_, ?_, ?_, ?_⟩
  · rw [hheap]
    exact h.nonempty
  · rw [hheap]
    exact h.ordered
  · rw [hheap, hstack]
    exact h.frames
  · rw [hheap, hdeferred]
    exact h.queue

/-- Other breakpoints, or another program for a machine that has not started. -/
theorem machine (h : Accounted c s) {t : State} (hheap : t.heap = s.heap)
    (hstack : t.stack = s.stack) (hdeferred : t.deferred = s.deferred) (hshape : t.control.Sound) :
    Accounted c t where
  sorted := sorted_of_eq h.sorted hheap hstack hdeferred
  shape := hshape
  handles := h.handles
  known := by
    rw [hheap]
    exact h.known

/-- Another debugger with the same references. -/
theorem debugger (h : Accounted c s) {d : Context} (hhandles : d.handles = c.handles) :
    Accounted d s where
  sorted := h.sorted
  shape := h.shape
  handles := by
    rw [hhandles]
    exact h.handles
  known := by
    rw [hhandles]
    exact h.known

/-- References that are forgotten. -/
theorem forget (h : Accounted c s) {d : Context} (hhandles : d.handles = c.handles.clear) :
    Accounted d s where
  sorted := h.sorted
  shape := h.shape
  handles := by
    rw [hhandles]
    exact h.handles.clear
  known := by
    rw [hhandles]
    exact known_clear _ _

theorem sorted_imported (h : s.Sorted) (json : Json) : (imported s json).Sorted := by
  have himports := Heap.imports_importJson s.heap json
  exact h.update himports.grows.size (himports.ordered h.ordered)
    fun a ha => (h.frames a ha).mono himports.grows.size

/-- The end of a pause. -/
theorem resume (h : Accounted c s) (mode : RunMode) : Accounted (c.resume mode) s := h.forget rfl

/-- The debugger is told of an event. -/
theorem event (h : Accounted c s) (event : Event) : Accounted (c.onEvent s event).1 s := by
  unfold Context.onEvent
  split
  · exact h.debugger rfl
  · dsimp only
    split
    · refine ⟨h.sorted, h.shape, h.handles.anchorGlobal _, ?_⟩
      intro id number hfound
      by_cases hid : id = Heap.globalId
      · rw [hid]
        exact h.sorted.nonempty
      · cases (Handles.find_cons_ne hid _ _).symm.trans hfound
    · exact h.forget rfl

/-- A small step. -/
theorem advance (h : Accounted c s) (hooks : Hooks) :
    Accounted c (Engine.advance hooks s).1 := by
  have hstep := State.step_advance hooks s
  exact ⟨h.sorted.step hstep, hstep.sound h.shape, h.handles,
    h.known.mono (h.sorted.size_step hstep)⟩

/-- A question for variables. -/
theorem variablesBehind (h : Accounted c s) {reference : Nat} {c' : Context}
    {items : List Variable} (hitems : c.variablesBehind s reference = .ok (c', items)) :
    Accounted c' s := by
  rw [Context.variablesBehind_eq] at hitems
  cases hentries : c.entriesBehind s reference with
  | error e =>
      rw [hentries] at hitems
      cases hitems
  | ok entries =>
      rw [hentries] at hitems
      obtain ⟨rfl, -⟩ := Prod.mk.inj (Except.ok.inj hitems)
      exact ⟨h.sorted, h.shape, Context.sound_describeAll s h.handles entries,
        h.known.describeAll s (objectIn_entriesBehind h.sorted hentries)⟩

/-- A value that is shown. -/
theorem describe (h : Accounted c s) (name : String) {value : Value}
    (hvalue : ObjectIn 0 s.heap.size value) :
    Accounted { c with handles := (Context.describe s c.handles name value).1 } s :=
  ⟨h.sorted, h.shape, Context.sound_describe s h.handles name value,
    h.known.describe s name hvalue⟩

/-- What a document builds. -/
theorem importJson (h : Accounted c s) (json : Json) : Accounted c (imported s json) where
  sorted := sorted_imported h.sorted json
  shape := h.shape
  handles := h.handles
  known := h.known.mono (Heap.imports_importJson s.heap json).grows.size

/-- A reference to an object means one that there is. -/
theorem target_lt (h : Accounted c s) {reference : Nat} {id : ObjectId}
    (htarget : c.target reference = .ok (.object id)) : id.number < s.heap.size := by
  rw [Context.target_eq] at htarget
  split at htarget
  · cases htarget
  · cases htarget
  · rename_i hresolve
    obtain rfl := Except.ok.inj htarget
    unfold Handles.resolve at hresolve
    split at hresolve
    · cases hresolve
    · split at hresolve
      · cases hresolve
      · obtain ⟨other, hfound, hother⟩ := Option.map_eq_some_iff.1 hresolve
        obtain rfl := Target.object.inj hother
        exact h.known other reference ((h.handles.inverse other reference).2 hfound)

theorem sorted_binding (h : s.Sorted) {frame : FrameId} {a : Activation} {name : String}
    {value : Value} {bindings : List (String × Value)} (ha : s.activation? frame = some a)
    (hvalue : ObjectIn 1 s.heap.size value)
    (hbindings : Machine.update? name value a.bindings = some bindings) :
    State.Sorted
      { s with stack := s.stack.map fun b => if b.id = frame then { b with bindings } else b } := by
  refine ⟨h.nonempty, h.ordered, ?_, h.queue⟩
  intro b hb
  obtain ⟨b, hold, rfl⟩ := List.mem_map.1 hb
  have hb := h.frames b hold
  split
  · refine ⟨?_, hb.accumulator, hb.this⟩
    intro p hp
    rcases Machine.mem_update? hbindings hp with rfl | hp
    · exact hvalue
    · exact (h.frames a (List.mem_of_find?_eq_some ha)).bindings p hp
  · exact hb

/-- An assignment, whether it is accepted or not. -/
theorem sets (h : Accounted c s) {reference : Nat} {name : String} {json : Json} {t : State}
    {result : Except QueryError (Context × Variable)}
    (hsets : Sets c s reference name json t result)
    (hshape : t.control.Sound) :
    (∀ e, result = .error e → Accounted c t) ∧ ∀ c' v, result = .ok (c', v) → Accounted c' t := by
  have himports := Heap.imports_importJson s.heap json
  have himported := h.importJson json
  have hvalue : ObjectIn s.heap.size (imported s json).heap.size (importedValue s json) :=
    himports.value
  cases hsets with
  | lost => exact ⟨fun _ _ => h, nofun⟩
  | frameless => exact ⟨fun _ _ => h, nofun⟩
  | unbound | unowned => exact ⟨fun _ _ => himported, nofun⟩
  | @property id o htarget hobject t ht =>
      refine ⟨nofun, ?_⟩
      intro c' v hresult
      obtain ⟨rfl, -⟩ := Prod.mk.inj (Except.ok.inj hresult)
      have hset : Accounted c t := by
        refine ⟨?_, hshape, h.handles, ?_⟩
        · rw [ht]
          refine himported.sorted.update (Nat.le_of_eq (Heap.size_defineProperty _ _ _ _).symm)
            (himported.sorted.ordered.defineProperty ?_) ?_
          · exact hvalue.mono (Nat.succ_le_of_lt (h.target_lt htarget)) (Nat.le_refl _)
          · rw [Heap.size_defineProperty]
            exact himported.sorted.frames
        · rw [ht, Heap.size_defineProperty]
          exact himported.known
      exact hset.describe name ((objectIn_readProperty hset.sorted id name).mono (Nat.zero_le _)
        (Nat.le_refl _))
  | @binding index frame a bindings htarget hframe ha hbindings t ht =>
      refine ⟨nofun, ?_⟩
      intro c' v hresult
      obtain ⟨rfl, -⟩ := Prod.mk.inj (Except.ok.inj hresult)
      have hset : Accounted c t := by
        refine ⟨?_, hshape, h.handles, ?_⟩
        · rw [ht]
          exact sorted_binding himported.sorted ha
            (hvalue.mono h.sorted.nonempty (Nat.le_refl _)) hbindings
        · rw [ht]
          exact himported.known
      exact hset.describe name ((objectIn_binding hset.sorted frame name).mono (Nat.zero_le _)
        (Nat.le_refl _))

/-- Whether it is accepted or not, an assignment leaves everything accounted for. -/
theorem setVariable (h : Accounted c s) (reference : Nat) (name : String) (json : Json) :
    (∀ t e, c.setVariable s reference name json = (t, .error e) → Accounted c t) ∧
      ∀ t c' v, c.setVariable s reference name json = (t, .ok (c', v)) → Accounted c' t := by
  have htouched := touched_setVariable c s reference name json
  have hshape : (c.setVariable s reference name json).1.control.Sound := by
    rw [htouched.control]
    exact h.shape
  have hsets := h.sets (sets_setVariable c s reference name json) hshape
  constructor
  · intro t e hset
    rw [hset] at hsets
    exact hsets.1 e rfl
  · intro t c' v hset
    rw [hset] at hsets
    exact hsets.2 c' v rfl

/-- The choice of a program. -/
theorem select (h : Accounted c s) (path : String) :
    Accounted c (Engine.selectProgram s path) := by
  show Accounted c (s.selectProgram path)
  unfold State.selectProgram
  split
  · exact h
  · rename_i hother
    split
    · rename_i program _
      have hstarted : s.started = false := Bool.eq_false_iff.2 fun hon => hother (.inr hon)
      obtain ⟨hstack, hqueue⟩ := h.shape.unstarted hstarted
      exact h.machine rfl rfl rfl (Machine.Control.sound_of_empty hstack hqueue)
    · exact h

/-- Setting a breakpoint changes the places of the machine alone. -/
theorem exists_set (b : Breakpoints) (s : State) (path : String) (line column : Nat) :
    ∃ places, (b.set s path line column).2.1 = s.withBreakpoints places := by
  unfold Breakpoints.set
  split
  · exact ⟨s.breakpoints, rfl⟩
  · rename_i k _
    split
    · exact ⟨s.breakpoints, rfl⟩
    · by_cases hthere : s.hasBreakpoint k.unit k.offset = true
      · exact ⟨s.breakpoints, if_pos hthere⟩
      · exact ⟨_, if_neg hthere⟩

theorem exists_remove (b : Breakpoints) (s : State) (id : Int) :
    ∃ places, (b.remove s id).2.1 = s.withBreakpoints places := by
  unfold Breakpoints.remove
  split
  · exact ⟨s.breakpoints, rfl⟩
  · exact ⟨_, rfl⟩

theorem withBreakpoints (h : Accounted c s) (places : List (UnitId × Nat)) :
    Accounted c (s.withBreakpoints places) :=
  h.machine rfl rfl rfl h.shape

/-- A message of the front end. -/
theorem perform (h : Accounted c s) (message : HostMessage) :
    Accounted (Agent.perform c s message).1 (Agent.perform c s message).2.1 := by
  cases message with
  | loadProgram path => exact h.select path
  | setBreakpoint path line column =>
      obtain ⟨places, hplaces⟩ := exists_set c.breakpoints s path line column
      have hset := (h.withBreakpoints places).debugger
        (d := { c with breakpoints := (c.breakpoints.set s path line column).1 }) rfl
      rw [← hplaces] at hset
      exact hset
  | removeBreakpoint id =>
      obtain ⟨places, hplaces⟩ := exists_remove c.breakpoints s id
      have hremove := (h.withBreakpoints places).debugger
        (d := { c with breakpoints := (c.breakpoints.remove s id).1 }) rfl
      rw [← hplaces] at hremove
      exact hremove
  | getVariables reference =>
      simp only [Agent.perform]
      cases hitems : c.variablesBehind s reference with
      | error e => exact h
      | ok result => exact h.variablesBehind hitems
  | setVariable reference name value =>
      obtain ⟨herror, hok⟩ := h.setVariable reference name value
      simp only [Agent.perform]
      rcases hset : c.setVariable s reference name value with ⟨t, e | ⟨c', v⟩⟩
      · exact herror t e hset
      · exact hok t c' v hset
  | _ => exact h

end Accounted

/-- Wherever a debugger and its machine get, they hold only what there is. -/
theorem Explored.accounted {c : Context} {s : State} (h : Explored c s) : Accounted c s := by
  induction h with
  | start hsource =>
      exact ⟨.initial _ _, Machine.sound_initial _ _, Handles.sound_initial, nofun⟩
  | advance hooks _ ih => exact ih.advance hooks
  | event event _ ih => exact ih.event event
  | resume mode _ ih => exact ih.resume mode
  | perform message _ ih => exact ih.perform message

end ScriptDebugger.Debug
