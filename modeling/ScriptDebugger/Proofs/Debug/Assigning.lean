import ScriptDebugger.Proofs.Debug.Explored
import ScriptDebugger.Proofs.Machine.Evaluator
/-!
# Assigning to a variable

The value of an assignment is built on the heap before it is known whether it can be assigned. What
it builds is new, so nothing that there was is touched; and where the assignment is refused, nothing
leads to the new objects. Where it is accepted, one entry has changed, of the bindings of one frame
or of the properties of one object, and the variable that is answered is the one that the next
question for variables lists under its name.

That the answer is listed again rests on the references: the value was shown, so it has its
reference, and a question gives out new references for other objects only.

## Main results

* `error_iff_refused` — when an assignment is refused, and with which error.
* `Untouched.of_grown` — what a refused assignment leaves behind is out of reach.
* `assigned_of_ok` — an assignment that is accepted changes one variable.
* `find?_describeAll` — a value that was shown is listed as it was shown.
* `setVariable_all_or_nothing` — the whole of it, for any debugger and machine that are explored.
-/

namespace ScriptDebugger

namespace Machine

/-! ## Entries -/

/-- The first entry of a name has another value, and all others are as they were. -/
def Replaces (name : String) (value : Value) (entries entries' : List (String × Value)) : Prop :=
  ∃ front old back, entries = front ++ (name, old) :: back ∧
    entries' = front ++ (name, value) :: back ∧ ∀ p ∈ front, p.1 ≠ name

/-- There was no entry of a name, and now there is one behind all others. -/
def Appends (name : String) (value : Value) (entries entries' : List (String × Value)) : Prop :=
  (∀ p ∈ entries, p.1 ≠ name) ∧ entries' = entries ++ [(name, value)]

section

variable {name : String} {value : Value} {entries t : List (String × Value)}

theorem replaces_of_update? (h : update? name value entries = some t) :
    Replaces name value entries t := by
  induction entries generalizing t with
  | nil => cases h
  | cons e rest ih =>
      obtain ⟨key, old⟩ := e
      by_cases hk : key = name
      · rw [update?, if_pos hk] at h
        obtain rfl := Option.some.inj h
        subst hk
        exact ⟨[], old, rest, rfl, rfl, List.forall_mem_nil _⟩
      · rw [update?, if_neg hk] at h
        obtain ⟨u, hu, rfl⟩ := Option.map_eq_some_iff.1 h
        obtain ⟨front, before, back, rfl, rfl, hfront⟩ := ih hu
        exact ⟨(key, old) :: front, before, back, rfl, rfl, List.forall_mem_cons.2 ⟨hk, hfront⟩⟩

theorem define_cases (name : String) (value : Value) (entries : List (String × Value)) :
    Replaces name value entries (define name value entries) ∨
      Appends name value entries (define name value entries) := by
  unfold define
  cases h : update? name value entries with
  | some t => exact .inl (replaces_of_update? h)
  | none => exact .inr ⟨update?_eq_none_iff_forall.1 h, rfl⟩

theorem mem_names_of_lookup (h : lookup name entries = some value) :
    name ∈ entries.map Prod.fst :=
  List.mem_map.2 ⟨_, mem_of_lookup h, rfl⟩

theorem lookup_names {names : List String} (content : String → Value) (h : name ∈ names) :
    lookup name (names.map fun n => (n, content n)) = some (content name) := by
  induction names with
  | nil => cases h
  | cons first rest ih =>
      rw [List.map_cons, lookup_cons]
      by_cases hfirst : first = name
      · rw [if_pos hfirst, hfirst]
      · rw [if_neg hfirst]
        exact ih ((List.mem_cons.1 h).resolve_left (Ne.symm hfirst))

end

/-! ## Frames -/

namespace State

section

variable {s : State} {frame : FrameId} {a : Activation} {bindings : List (String × Value)}

/-- The bindings of a frame are the only thing that an assignment to one of them changes. -/
theorem exists_rebound (frame : FrameId) (bindings : List (String × Value)) (a : Activation) :
    ∃ content,
      (if a.id = frame then { a with bindings } else a) = { a with bindings := content } := by
  by_cases hid : a.id = frame
  · exact ⟨bindings, if_pos hid⟩
  · exact ⟨a.bindings, if_neg hid⟩

/-- What can be seen of a frame does not depend on the bindings. -/
theorem frameInfo?_map (p : Program) (frame : FrameId) {f : Activation → Activation}
    (hf : ∀ a, ∃ content, f a = { a with bindings := content }) (stack : List Activation) :
    frameInfo? p frame (stack.map f) = frameInfo? p frame stack := by
  have hid : (fun a => (f a).id) = fun a => a.id := by
    funext a
    obtain ⟨content, ha⟩ := hf a
    rw [ha]
  induction stack with
  | nil => rfl
  | cons a below ih =>
      have hbelow : (below.map f).head?.map (·.id) = below.head?.map (·.id) := by
        rw [List.head?_map, Option.map_map]
        exact congrArg (Option.map · below.head?) hid
      obtain ⟨content, ha⟩ := hf a
      rw [List.map_cons, frameInfo?, frameInfo?, ih, hbelow, ha]

/-- The frame of a number has its new bindings. -/
theorem find?_rebound (ha : s.activation? frame = some a) :
    (s.stack.map fun b => if b.id = frame then { b with bindings } else b).find?
      (fun b => b.id == frame) = some { a with bindings } := by
  have hid : a.id = frame := by simpa using List.find?_some ha
  have hsame : ((fun b : Activation => b.id == frame) ∘ fun b =>
      if b.id = frame then { b with bindings } else b) = fun b => b.id == frame := by
    funext b
    obtain ⟨content, hb⟩ := exists_rebound frame bindings b
    rw [Function.comp_apply, hb]
  rw [List.find?_map, hsame]
  exact (congrArg (Option.map _) ha).trans (congrArg some (if_pos hid))

end

end State

end Machine

namespace Debug

open Machine (Heap HeapObject State Activation Program lookup)
open Wire (Variable)

/-! ## What an assignment leaves -/

/-- What can be got at: the global object, what the machine holds, what has a reference, and the
properties of all these. -/
inductive InReach (c : Context) (s : State) : ObjectId → Prop
  | global : InReach c s Heap.globalId
  | held {id : ObjectId} (hid : s.Holds id) : InReach c s id
  | this {a : Activation} {id : ObjectId} (ha : a ∈ s.stack) (hid : a.this = .object id) :
    InReach c s id
  | shown {id : ObjectId} {number : Nat} (hid : Handles.find id c.handles.byObject = some number) :
    InReach c s id
  | property {holder id : ObjectId} (hholder : InReach c s holder)
    (hid : s.heap.Points holder id) : InReach c s id

/-- The objects that there were are as they were. -/
def KeepsObjects (s t : State) : Prop := ∀ id o, s.heap.get? id = some o → t.heap.get? id = some o

/-- Why an assignment is refused. -/
inductive Refused (c : Context) (s : State) (reference : Nat) (name : String) : QueryError → Prop
  /-- The program is not paused, or the reference means nothing. -/
  | lost {e : QueryError} (htarget : c.target reference = .error e) : Refused c s reference name e
  /-- The frame is not there. -/
  | frameless {index : Nat} {e : QueryError} (htarget : c.target reference = .ok (.frame index))
    (hframe : c.findFrame s index = .error e) : Refused c s reference name e
  /-- The frame has been left. -/
  | stale {index : Nat} {frame : FrameId} (htarget : c.target reference = .ok (.frame index))
    (hframe : c.findFrame s index = .ok frame) (hgone : s.activation? frame = none) :
    Refused c s reference name (.engine (.staleFrame frame))
  /-- The frame has no binding of the name. -/
  | unbound {index : Nat} {frame : FrameId} {a : Activation}
    (htarget : c.target reference = .ok (.frame index)) (hframe : c.findFrame s index = .ok frame)
    (ha : s.activation? frame = some a) (hname : ∀ p ∈ a.bindings, p.1 ≠ name) :
    Refused c s reference name (.engine (.unknownBinding name))

/-- A machine to which nothing has happened, apart from new objects that are out of reach. -/
structure Untouched (c : Context) (s t : State) : Prop where
  machine : t = { s with heap := t.heap }
  objects : KeepsObjects s t
  outOfReach : ∀ id, InReach c t id → (s.heap.get? id).isSome

/-- A machine in which one variable has a new value: `t` is `s` otherwise, and its objects are
those that the value was built with. -/
inductive Assigned (c : Context) (s : State) (reference : Nat) (name : String) (json : Json)
    (t : State) : Prop
  /-- A binding of a frame. -/
  | binding {index : Nat} {a : Activation} {above below : List Activation}
    {bindings : List (String × Value)} (htarget : c.target reference = .ok (.frame index))
    (hframe : c.findFrame s index = .ok a.id) (hstack : s.stack = above ++ a :: below)
    (hbindings : Machine.Replaces name (importedValue s json) a.bindings bindings)
    (hmachine : t = { imported s json with stack := above ++ { a with bindings } :: below })
    (hobjects : KeepsObjects s t) : Assigned c s reference name json t
  /-- A property of an object, which may be new. -/
  | property {id : ObjectId} {o : HeapObject} {properties : List (String × Value)}
    (htarget : c.target reference = .ok (.object id)) (hobject : s.heap.get? id = some o)
    (hproperties : Machine.Replaces name (importedValue s json) o.properties properties ∨
      Machine.Appends name (importedValue s json) o.properties properties)
    (hset : t.heap.get? id = some { o with properties })
    (hmachine : t = { s with heap := t.heap })
    (hbuilt : ∀ other, other ≠ id → t.heap.get? other = (imported s json).heap.get? other)
    (hobjects : ∀ other o, other ≠ id → s.heap.get? other = some o →
      t.heap.get? other = some o) : Assigned c s reference name json t

section

variable {c : Context} {s t : State} {reference : Nat} {name : String} {json : Json}

theorem sets_of_eq {result : Except QueryError (Context × Variable)}
    (hset : c.setVariable s reference name json = (t, result)) :
    Sets c s reference name json t result := by
  have hsets := sets_setVariable c s reference name json
  rwa [hset] at hsets

theorem keepsObjects_imported (s : State) (json : Json) : KeepsObjects s (imported s json) := by
  intro id o ho
  have hlt : id.number < s.heap.size := (List.getElem?_eq_some_iff.1 ho).1
  exact ((Heap.imports_importJson s.heap json).grows.keeps id.number hlt).trans ho

/-- New objects alone are out of reach. -/
theorem Untouched.of_grown (h : Accounted c s) {heap : Heap}
    (hobjects : KeepsObjects s { s with heap }) : Untouched c s { s with heap } where
  machine := rfl
  objects := hobjects
  outOfReach id hid := by
    refine Heap.isSome_get? ?_
    induction hid with
    | global => exact h.sorted.nonempty
    | @held id hid =>
        have hheld : s.Holds id := by
          cases hid with
          | binding ha hid => exact .binding ha hid
          | accumulator ha hid => exact .accumulator ha hid
          | argument hcall hid => exact .argument hcall hid
        exact (h.sorted.holds hheld id rfl).2
    | @this a id ha hid => exact ((h.sorted.frames a ha).this id hid).2
    | shown hid => exact h.known _ _ hid
    | @property holder id _ hid hholder =>
        -- the holder was there before, so it has the properties that it had
        obtain ⟨o, name, ho, hmem⟩ := hid
        obtain ⟨old, hold⟩ := Option.isSome_iff_exists.1 (Heap.isSome_get? hholder)
        obtain rfl : old = o := Option.some.inj ((hobjects holder old hold).symm.trans ho)
        exact (h.sorted.points ⟨old, name, hold, hmem⟩).2

theorem untouched_self (h : Accounted c s) : Untouched c s s :=
  .of_grown h fun _ _ ho => ho

/-- An assignment that is refused touches nothing. -/
theorem untouched_of_error (h : Accounted c s) {e : QueryError}
    (hset : c.setVariable s reference name json = (t, .error e)) : Untouched c s t := by
  cases sets_of_eq hset with
  | lost => exact untouched_self h
  | frameless => exact untouched_self h
  | unbound | unowned => exact .of_grown h (keepsObjects_imported s json)

theorem setBinding_stale {frame : FrameId} (hgone : s.activation? frame = none) (value : Value) :
    Engine.setBinding s frame name value = .error (.staleFrame frame) := by
  show s.setBinding frame name value = _
  rw [State.setBinding, hgone]

theorem setBinding_unbound {frame : FrameId} {a : Activation} (ha : s.activation? frame = some a)
    (hname : ∀ p ∈ a.bindings, p.1 ≠ name) (value : Value) :
    Engine.setBinding s frame name value = .error (.unknownBinding name) := by
  show s.setBinding frame name value = _
  simp only [State.setBinding, ha, Machine.update?_eq_none_iff_forall.2 hname]

theorem setBinding_error {frame : FrameId} {value : Value} {e : EngineError}
    (h : Engine.setBinding s frame name value = .error e) :
    s.activation? frame = none ∧ e = .staleFrame frame ∨
      ∃ a, s.activation? frame = some a ∧ (∀ p ∈ a.bindings, p.1 ≠ name) ∧
        e = .unknownBinding name := by
  change s.setBinding frame name value = .error e at h
  unfold State.setBinding at h
  split at h
  · rename_i hgone
    exact .inl ⟨hgone, (Except.error.inj h).symm⟩
  · rename_i a ha
    split at h
    · rename_i hupdate
      exact .inr ⟨a, ha, Machine.update?_eq_none_iff_forall.1 hupdate, (Except.error.inj h).symm⟩
    · cases h

/-- An object that there is takes any property. -/
theorem setProperty_ne_error {id : ObjectId} (hid : (s.heap.get? id).isSome) {value : Value}
    {e : EngineError} : Engine.setProperty s id name value ≠ .error e := by
  intro h
  change (s.heap.setProperty id name value).map (fun heap => ({ s with heap } : State)) =
    .error e at h
  obtain ⟨o, ho⟩ := Option.isSome_iff_exists.1 hid
  rw [Heap.setProperty, ho] at h
  cases h

/-- An assignment is refused for one of the reasons, and wherever there is one. -/
theorem error_iff_refused (h : Accounted c s) {e : QueryError} :
    (∃ t, c.setVariable s reference name json = (t, .error e)) ↔
      Refused c s reference name e := by
  constructor
  · rintro ⟨t, hset⟩
    cases sets_of_eq hset with
    | lost htarget => exact .lost htarget
    | frameless htarget hframe => exact .frameless htarget hframe
    | unbound htarget hframe hrefused =>
        rcases setBinding_error hrefused with ⟨hgone, rfl⟩ | ⟨a, ha, hname, rfl⟩
        · exact .stale htarget hframe hgone
        · exact .unbound htarget hframe ha hname
    | @unowned id e htarget hrefused =>
        -- a reference that means an object means one that there is
        have hlt : id.number < (imported s json).heap.size :=
          Nat.lt_of_lt_of_le (h.target_lt htarget) (Heap.imports_importJson s.heap json).grows.size
        exact absurd hrefused (setProperty_ne_error (Heap.isSome_get? hlt))
  · intro hrefused
    have himport : Engine.importValue s json = (imported s json, importedValue s json) := rfl
    cases hrefused with
    | lost htarget => exact ⟨s, by simp only [Context.setVariable, htarget]⟩
    | frameless htarget hframe =>
        exact ⟨s, by simp only [Context.setVariable, htarget, hframe]⟩
    | @stale index frame htarget hframe hgone =>
        have hset : Engine.setBinding (imported s json) frame name (importedValue s json) =
            .error (.staleFrame frame) := setBinding_stale (s := imported s json) hgone _
        exact ⟨imported s json, by simp only [Context.setVariable, htarget, hframe, himport, hset]⟩
    | @unbound index frame a htarget hframe ha hname =>
        have hset : Engine.setBinding (imported s json) frame name (importedValue s json) =
            .error (.unknownBinding name) := setBinding_unbound (s := imported s json) ha hname _
        exact ⟨imported s json, by simp only [Context.setVariable, htarget, hframe, himport, hset]⟩

/-- The frame of a number stands at one place of the stack only. -/
theorem exists_stack {frame : FrameId} {a : Activation} (hshape : s.control.Sound)
    (ha : s.activation? frame = some a) (bindings : List (String × Value)) :
    a.id = frame ∧ ∃ above below, s.stack = above ++ a :: below ∧
      (s.stack.map fun b => if b.id = frame then { b with bindings } else b) =
        above ++ { a with bindings } :: below := by
  obtain ⟨hid, above, below, hstack, -⟩ := List.find?_eq_some_iff_append.1 ha
  have hid : a.id = frame := beq_iff_eq.1 hid
  refine ⟨hid, above, below, hstack, ?_⟩
  have hids := State.nodup_ids hshape
  rw [hstack, List.map_append, List.map_cons, List.nodup_append, List.nodup_cons] at hids
  obtain ⟨-, ⟨hbelow, -⟩, habove⟩ := hids
  have hsame : ∀ others : List Activation, (∀ b ∈ others, b.id ≠ frame) →
      (others.map fun b => if b.id = frame then { b with bindings } else b) = others := by
    intro others hothers
    refine (List.map_congr_left fun b hb => if_neg (hothers b hb)).trans (List.map_id' others)
  rw [hstack, List.map_append, List.map_cons, if_pos hid, hsame above, hsame below]
  · intro b hb hsameId
    exact hbelow (List.mem_map.2 ⟨b, hb, hsameId.trans hid.symm⟩)
  · intro b hb hsameId
    exact habove _ (List.mem_map_of_mem hb) _ List.mem_cons_self (hsameId.trans hid.symm)

/-- An assignment that is accepted changes one variable. -/
theorem assigned_of_ok (h : Accounted c s) {c' : Context} {v : Variable}
    (hset : c.setVariable s reference name json = (t, .ok (c', v))) :
    Assigned c s reference name json t := by
  have hsets := sets_of_eq hset
  generalize hresult : Except.ok (c', v) = result at hsets
  cases hsets with
  | lost | frameless | unbound | unowned => cases hresult
  | @property id o htarget hobject t ht =>
      have hlt := h.target_lt htarget
      have hold : s.heap.get? id = some o :=
        ((Heap.imports_importJson s.heap json).grows.keeps id.number hlt).symm.trans hobject
      rw [ht]
      refine .property htarget hold (Machine.define_cases name _ _) ?_ rfl ?_ ?_
      · rw [Heap.get?_defineProperty_self, hobject]
        rfl
      · intro other hother
        exact Heap.get?_defineProperty_ne hother
      · intro other o hother ho
        exact (Heap.get?_defineProperty_ne hother).trans (keepsObjects_imported s json other o ho)
  | @binding index frame a bindings htarget hframe ha hbindings t ht =>
      obtain ⟨rfl, above, below, hstack, hmap⟩ := exists_stack h.shape ha bindings
      rw [ht, hmap]
      exact .binding htarget hframe hstack (Machine.replaces_of_update? hbindings) rfl
        (keepsObjects_imported s json)

/-! ### What it answers -/

/-- The new value is shown, and it is listed behind the reference from then on. -/
structure Answered (c : Context) (s : State) (reference : Nat) (name : String) (json : Json)
    (t : State) (c' : Context) (v : Variable) : Prop where
  debugger : c' = { c with handles := c'.handles }
  shown : Context.describe t c.handles name (importedValue s json) = (c'.handles, v)
  listed : ∃ c'' items, c'.variablesBehind t reference = .ok (c'', items) ∧
    items.find? (fun item => item.name == name) = some v

/-- A value that was shown is listed under its name as it was shown. -/
theorem find?_describeAll {handles handles' : Handles} {entries : List (String × Value)}
    {value : Value} (hlookup : lookup name entries = some value)
    (hextends : (Context.describe t handles name value).1.Extends handles') :
    (Context.describeAll t handles' entries).2.find? (fun item => item.name == name) =
      some (Context.describe t handles name value).2 := by
  induction entries generalizing handles' with
  | nil => cases hlookup
  | cons entry rest ih =>
      obtain ⟨key, content⟩ := entry
      rw [Machine.lookup_cons] at hlookup
      rw [Context.describeAll_cons]
      have hkey : (Context.describe t handles' key content).2.name = key := rfl
      by_cases hname : key = name
      · rw [if_pos hname] at hlookup
        obtain rfl := Option.some.inj hlookup
        subst hname
        simp only [List.find?_cons, hkey, beq_self_eq_true]
        rw [Context.describe_again t hextends]
      · rw [if_neg hname] at hlookup
        simp only [List.find?_cons, hkey, beq_eq_false_iff_ne.2 hname]
        exact ih hlookup (hextends.trans (Context.extends_describe t handles' key content))

/-- Where the entries behind a reference have the new value, the answer is listed among them. -/
theorem answered_of_entries {c' : Context} {v : Variable} (hs : c.handles.Sound)
    (hs' : c'.handles.Sound) (hdebugger : c' = { c with handles := c'.handles })
    (hshown : Context.describe t c.handles name (importedValue s json) = (c'.handles, v))
    {entries : List (String × Value)} (hentries : c.entriesBehind t reference = .ok entries)
    (hlookup : lookup name entries = some (importedValue s json)) :
    Answered c s reference name json t c' v := by
  have hself : (Context.describe t c.handles name (importedValue s json)).1.Extends c'.handles := by
    rw [hshown]
    exact .refl _
  -- the answer gave out references, so what was behind the reference is behind it still
  have hcontinues : c.Continues c' :=
    ⟨by rw [hdebugger], (Context.extends_describe t c.handles name _).trans hself⟩
  have hlisted : (Context.describeAll t c'.handles entries).2.find? (fun item =>
      item.name == name) = some v := by
    rw [find?_describeAll hlookup hself, hshown]
  refine ⟨hdebugger, hshown, ?_⟩
  rw [Context.variablesBehind_eq, hcontinues.entriesBehind hs hs' hentries]
  exact ⟨_, _, rfl, hlisted⟩

/-! ### What is behind the reference -/

theorem callerAt_congr (hframe : ∀ frame, Engine.frame? t frame = Engine.frame? s frame)
    (steps : Nat) (frame : FrameId) :
    Context.callerAt t steps frame = Context.callerAt s steps frame := by
  induction steps generalizing frame with
  | zero => rfl
  | succ steps ih => simp only [Context.callerAt, hframe, ih]

/-- An assignment to a binding leaves the frames where they are. -/
theorem findFrame_rebound {frame : FrameId} {bindings : List (String × Value)}
    (hprogram : t.program = s.program)
    (hstack : t.stack = s.stack.map fun b => if b.id = frame then { b with bindings } else b)
    (index : Nat) : c.findFrame t index = c.findFrame s index := by
  have hseen : ∀ other, Engine.frame? t other = Engine.frame? s other := by
    intro other
    show Machine.State.frameInfo? t.program other t.stack = _
    rw [hprogram, hstack]
    exact State.frameInfo?_map s.program other (State.exists_rebound frame bindings) s.stack
  unfold Context.findFrame
  simp only [callerAt_congr hseen]

theorem property?_eq {id : ObjectId} {o : HeapObject} (hobject : t.heap.get? id = some o) :
    Engine.property? t id name = lookup name o.properties := by
  show (t.heap.get? id).bind _ = _
  rw [hobject]
  rfl

theorem binding?_eq {frame : FrameId} {a : Activation} (ha : t.activation? frame = some a) :
    Engine.binding? t frame name = lookup name a.bindings := by
  show (t.activation? frame).bind _ = _
  rw [ha]
  rfl

/-- A property is among the variables of its object. -/
theorem lookup_objectEntries {id : ObjectId} {o : HeapObject} {value : Value}
    (hobject : t.heap.get? id = some o) (hlookup : lookup name o.properties = some value) :
    lookup name (Context.objectEntries t id) = some value := by
  have hnames : Engine.propertyNames t id = o.properties.map Prod.fst := by
    show ((t.heap.get? id).map fun o => o.properties.map Prod.fst).getD [] = _
    rw [hobject]
    rfl
  unfold Context.objectEntries
  rw [hnames, Machine.lookup_names _ (Machine.mem_names_of_lookup hlookup), property?_eq hobject,
    hlookup]
  rfl

/-- A binding is among the variables of its frame. -/
theorem lookup_frameEntries {frame : FrameId} {a : Activation} {value : Value}
    (ha : t.activation? frame = some a) (hlookup : lookup name a.bindings = some value) :
    lookup name (Context.frameEntries t frame) = some value := by
  have hnames : Engine.bindingNames t frame = a.bindings.map Prod.fst := by
    show ((t.activation? frame).map fun a => a.bindings.map Prod.fst).getD [] = _
    rw [ha]
    rfl
  have hbinding : lookup name ((Engine.bindingNames t frame).map fun n =>
      (n, (Engine.binding? t frame n).getD .undefined)) = some value := by
    rw [hnames, Machine.lookup_names _ (Machine.mem_names_of_lookup hlookup), binding?_eq ha,
      hlookup]
    rfl
  unfold Context.frameEntries
  split
  · split
    · rw [Machine.lookup_append, hbinding]
      rfl
    · exact hbinding
  · exact hbinding

/-- An assignment that is accepted answers what is listed from then on. -/
theorem answered_of_ok (h : Accounted c s) {c' : Context} {v : Variable}
    (hset : c.setVariable s reference name json = (t, .ok (c', v))) :
    Answered c s reference name json t c' v := by
  have hs' := ((h.setVariable reference name json).2 t c' v hset).handles
  have hsets := sets_of_eq hset
  generalize hresult : Except.ok (c', v) = result at hsets
  cases hsets with
  | lost | frameless | unbound | unowned => cases hresult
  | @property id o htarget hobject t ht =>
      obtain ⟨rfl, rfl⟩ := Prod.mk.inj (Except.ok.inj hresult)
      have hgot : t.heap.get? id = some { o with
          properties := Machine.define name (importedValue s json) o.properties } := by
        rw [ht, Heap.get?_defineProperty_self, hobject]
        rfl
      have hlookup := Machine.lookup_define_self name (importedValue s json) o.properties
      refine answered_of_entries h.handles hs' rfl ?_ ?_ (lookup_objectEntries hgot hlookup)
      · rw [property?_eq hgot, hlookup]
        rfl
      · rw [Context.entriesBehind, htarget]
  | @binding index frame a bindings htarget hframe ha hbindings t ht =>
      obtain ⟨rfl, rfl⟩ := Prod.mk.inj (Except.ok.inj hresult)
      have hgot : t.activation? frame = some { a with bindings } := by
        rw [ht]
        exact State.find?_rebound ha
      have hlookup := Machine.lookup_update?_self hbindings
      have hfound : c.findFrame t index = .ok frame :=
        (findFrame_rebound (by rw [ht]; rfl) (by rw [ht]) index).trans hframe
      refine answered_of_entries h.handles hs' rfl ?_ ?_ (lookup_frameEntries hgot hlookup)
      · rw [binding?_eq hgot, hlookup]
        rfl
      · rw [Context.entriesBehind, htarget]
        simp only [hfound]
        rfl

end

/-- An assignment is all or nothing, and is refused just where there is a reason for it. Where it is
refused, the debugger is as before, and so is the machine but for new objects that are out of reach.
Where it is accepted, one binding of a frame or one property of an object has the new value and all
else is as before; the answer shows the new value, and is what the next question for the variables
behind the reference lists under the name. -/
theorem setVariable_all_or_nothing {c : Context} {s : State} (h : Explored c s) (reference : Nat)
    (name : String) (json : Json) :
    (∀ e, (∃ t, c.setVariable s reference name json = (t, .error e)) ↔
      Refused c s reference name e) ∧
    (∀ t e, c.setVariable s reference name json = (t, .error e) →
      Untouched c s t ∧ Agent.perform c s (.setVariable reference name json) =
        (c, t, some (.error e.message), .serve)) ∧
    ∀ t c' v, c.setVariable s reference name json = (t, .ok (c', v)) →
      Assigned c s reference name json t ∧ Answered c s reference name json t c' v := by
  have haccounted := h.accounted
  refine ⟨fun e => error_iff_refused haccounted, ?_, ?_⟩
  · intro t e hset
    refine ⟨untouched_of_error haccounted hset, ?_⟩
    simp only [Agent.perform, hset]
  · intro t c' v hset
    exact ⟨assigned_of_ok haccounted hset, answered_of_ok haccounted hset⟩

/-- In one pause, an object is assigned to the only binding of the module, and is refused for
another name. -/
theorem setVariable_all_or_nothing_object :
    ∃ program c s accepted refused c' v,
      Program.ofSource "main.mod" "let a = \"x\"\nprint \"y\"\n" = .ok program ∧
      Explored c s ∧
      c.setVariable s 1 "a" (.object [("p", .string "z")]) = (accepted, .ok (c', v)) ∧
      v.value = "[object Object]" ∧
      Assigned c s 1 "a" (.object [("p", .string "z")]) accepted ∧
      Answered c s 1 "a" (.object [("p", .string "z")]) accepted c' v ∧
      c.setVariable s 1 "b" (.object [("p", .string "z")]) =
        (refused, .error (.engine (.unknownBinding "b"))) ∧
      Untouched c s refused := by
  have hcomputed :
      ((Program.ofSource "main.mod" "let a = \"x\"\nprint \"y\"\n").toOption.bind fun program =>
        (secondPause program).map fun paused =>
          ((paused.1.setVariable paused.2 1 "a" (.object [("p", .string "z")])).2.map (·.2.value),
            (paused.1.setVariable paused.2 1 "b" (.object [("p", .string "z")])).2.map
              (·.2.value))) =
        some (.ok "[object Object]", .error (.engine (.unknownBinding "b"))) := by cbv
  obtain ⟨program, hsource, hprogram⟩ := Program.exists_of_ofSource hcomputed
  obtain ⟨⟨d, t⟩, hpause, hdata⟩ := Option.map_eq_some_iff.1 hprogram
  obtain ⟨haccepted, hrefused⟩ := Prod.mk.inj hdata
  have hexplored := explored_of_secondPause hsource hpause
  rcases hset : d.setVariable t 1 "a" (.object [("p", .string "z")]) with ⟨accepted, e | ⟨c', v⟩⟩
  · rw [hset] at haccepted
    cases haccepted
  rcases hset' : d.setVariable t 1 "b" (.object [("p", .string "z")]) with ⟨refused, e | answer⟩
  · rw [hset] at haccepted
    rw [hset'] at hrefused
    obtain ⟨hassigned, hanswered⟩ := (setVariable_all_or_nothing hexplored _ _ _).2.2 _ _ _ hset
    have huntouched := ((setVariable_all_or_nothing hexplored _ _ _).2.1 _ _ hset').1
    rw [Except.error.inj hrefused] at hset'
    exact ⟨program, d, t, accepted, refused, c', v, hsource, hexplored, hset,
      Except.ok.inj haccepted, hassigned, hanswered, hset', huntouched⟩
  · rw [hset'] at hrefused
    cases hrefused

end Debug

end ScriptDebugger
