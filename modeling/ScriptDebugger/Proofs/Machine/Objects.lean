import Mathlib.Logic.Relation
import ScriptDebugger.Proofs.Machine.SmallStep
/-!
# The order of objects

An object is created before everything that is put into it. The value of a document is built from
the outside in; assignments move values between bindings, and into the global object, which is the
first one of all. So every object that a property holds has a greater number than the object with
that property, and the properties lead nowhere back.

Both halves of this are one invariant: what is stored has numbers between a lower end, one behind
the object that it is stored in, and an upper end, the size of the heap. The upper end only grows.

## Main results

* `imports_importJson` — what a document builds is new, and leaves the old objects as they were.
* `Ordered.defineProperty` — a later object may become a property.
* `Sorted.step` — every small step keeps the order.
* `State.Sorted.acyclic` — properties lead nowhere back.
-/

namespace ScriptDebugger.Machine

/-! ## Named values -/

/-- If the value is an object, its number is in the range. -/
def ObjectIn (low high : Nat) (value : Value) : Prop :=
  ∀ id, value = .object id → low ≤ id.number ∧ id.number < high

section

variable {low low' high high' : Nat} {value : Value} {name : String}
  {entries t : List (String × Value)}

theorem ObjectIn.mono (h : ObjectIn low high value) (hlow : low' ≤ low) (hhigh : high ≤ high') :
    ObjectIn low' high' value := by
  intro id hid
  obtain ⟨hfrom, hto⟩ := h id hid
  omega

theorem mem_of_lookup (h : lookup name entries = some value) : (name, value) ∈ entries := by
  obtain ⟨⟨key, v⟩, hfound, rfl⟩ := Option.map_eq_some_iff.1 h
  obtain rfl : key = name := by simpa using List.find?_some hfound
  exact List.mem_of_find?_eq_some hfound

theorem lookup_eq_none_iff : lookup name entries = none ↔ ∀ p ∈ entries, p.1 ≠ name := by
  rw [lookup, Option.map_eq_none_iff, List.find?_eq_none]
  simp only [beq_iff_eq]

theorem update?_eq_none_iff_forall :
    update? name value entries = none ↔ ∀ p ∈ entries, p.1 ≠ name :=
  update?_eq_none_iff.trans lookup_eq_none_iff

theorem mem_update? (h : update? name value entries = some t) {p : String × Value} (hp : p ∈ t) :
    p = (name, value) ∨ p ∈ entries := by
  induction entries generalizing t with
  | nil => cases h
  | cons e rest ih =>
      obtain ⟨key, old⟩ := e
      by_cases hk : key = name
      · rw [update?, if_pos hk] at h
        obtain rfl := Option.some.inj h
        rcases List.mem_cons.1 hp with rfl | hp
        · exact .inl (by rw [hk])
        · exact .inr (List.mem_cons_of_mem _ hp)
      · rw [update?, if_neg hk] at h
        obtain ⟨u, hu, rfl⟩ := Option.map_eq_some_iff.1 h
        rcases List.mem_cons.1 hp with rfl | hp
        · exact .inr List.mem_cons_self
        · exact (ih hu hp).imp_right (List.mem_cons_of_mem _)

theorem mem_define {p : String × Value} (hp : p ∈ define name value entries) :
    p = (name, value) ∨ p ∈ entries := by
  unfold define at hp
  cases h : update? name value entries with
  | some t =>
      rw [h] at hp
      exact mem_update? h hp
  | none =>
      rw [h] at hp
      exact (List.mem_append.1 hp).symm.imp_left List.mem_singleton.1

end

namespace Heap

/-! ## Heaps -/

/-- How many objects there are. -/
def size (heap : Heap) : Nat := heap.objects.length

/-- What an object holds was created after it. -/
def Ordered (heap : Heap) : Prop :=
  ∀ n o p, heap.objects[n]? = some o → p ∈ o.properties → ObjectIn (n + 1) heap.size p.2

/-- The objects below a bound stay as they are, and none goes away. -/
structure Grows (bound : Nat) (heap heap' : Heap) : Prop where
  size : heap.size ≤ heap'.size
  keeps : ∀ n < bound, heap'.objects[n]? = heap.objects[n]?

section

variable {heap heap' heap'' : Heap} {bound bound' : Nat} {id : ObjectId} {name : String}
  {value : Value}

theorem Grows.refl (bound : Nat) (heap : Heap) : Grows bound heap heap :=
  ⟨Nat.le_refl _, fun _ _ => rfl⟩

theorem Grows.trans (h : Grows bound heap heap') (h' : Grows bound' heap' heap'')
    (hbound : bound ≤ bound') : Grows bound heap heap'' where
  size := Nat.le_trans h.size h'.size
  keeps n hn := (h'.keeps n (Nat.lt_of_lt_of_le hn hbound)).trans (h.keeps n hn)

theorem ordered_initial : Ordered .initial := by
  intro n o p ho hp
  obtain rfl : n = 0 := by
    have hlt := (List.getElem?_eq_some_iff.1 ho).1
    exact Nat.lt_one_iff.1 hlt
  obtain rfl := Option.some.inj ho
  cases hp

/-! ### One new object -/

theorem size_alloc (heap : Heap) (className : String) :
    (heap.alloc className).1.size = heap.size + 1 := List.length_append

theorem grows_alloc (heap : Heap) (className : String) :
    Grows heap.size heap (heap.alloc className).1 where
  size := by
    rw [size_alloc]
    exact Nat.le_succ _
  keeps n hn := List.getElem?_append_left hn

theorem Ordered.alloc (h : Ordered heap) (className : String) :
    Ordered (heap.alloc className).1 := by
  intro n o p ho hp
  by_cases hn : n < heap.size
  · rw [(grows_alloc heap className).keeps n hn] at ho
    exact (h n o p ho hp).mono (Nat.le_refl _) (grows_alloc heap className).size
  · have hlast : ([⟨className, []⟩] : List HeapObject)[n - heap.size]? = some o := by
      rw [← ho]
      exact (List.getElem?_append_right (Nat.le_of_not_lt hn)).symm
    obtain rfl := List.mem_singleton.1 (List.mem_of_getElem? hlast)
    cases hp

/-! ### One property -/

theorem size_defineProperty (heap : Heap) (id : ObjectId) (name : String) (value : Value) :
    (heap.defineProperty id name value).size = heap.size := List.length_modify _ _ _

theorem get?_defineProperty_ne {other : ObjectId} (hne : other ≠ id) :
    (heap.defineProperty id name value).get? other = heap.get? other := by
  have hnumber : id.number ≠ other.number := by
    intro h
    exact hne (congrArg ObjectId.mk h.symm)
  exact List.getElem?_modify_ne _ _ hnumber

theorem get?_defineProperty_self :
    (heap.defineProperty id name value).get? id =
      (heap.get? id).map fun o => { o with properties := define name value o.properties } :=
  List.getElem?_modify_eq _ _ _

theorem grows_defineProperty (heap : Heap) (id : ObjectId) (name : String) (value : Value) :
    Grows id.number heap (heap.defineProperty id name value) where
  size := Nat.le_of_eq (size_defineProperty heap id name value).symm
  keeps _ hn := List.getElem?_modify_ne _ _ (Nat.ne_of_gt hn)

/-- A later object may become a property. -/
theorem Ordered.defineProperty (h : Ordered heap)
    (hvalue : ObjectIn (id.number + 1) heap.size value) :
    Ordered (heap.defineProperty id name value) := by
  intro n o p ho hp
  rw [size_defineProperty]
  by_cases hn : n = id.number
  · subst hn
    obtain ⟨old, hold, rfl⟩ := Option.map_eq_some_iff.1 (get?_defineProperty_self.symm.trans ho)
    rcases mem_define hp with rfl | hp
    · exact hvalue
    · exact h _ old p hold hp
  · have hother : (⟨n⟩ : ObjectId) ≠ id := fun heq => hn (congrArg ObjectId.number heq)
    have hold : heap.objects[n]? = some o := (get?_defineProperty_ne hother).symm.trans ho
    exact h n o p hold hp

end

/-! ### Documents -/

/-- What a document builds is new and in order, and the old objects stay as they are. -/
structure Imports (heap : Heap) (result : Heap × Value) : Prop where
  grows : Grows heap.size heap result.1
  ordered : heap.Ordered → result.1.Ordered
  value : ObjectIn heap.size result.1.size result.2

/-- An object is filled with what is new and in order, and the objects before it stay as they
are. -/
structure Fills (heap : Heap) (id : ObjectId) (result : Heap) : Prop where
  grows : Grows id.number heap result
  ordered : heap.Ordered → result.Ordered

section

variable {heap result : Heap} {id : ObjectId}

theorem Imports.of_plain {value : Value} (h : ∀ id, value ≠ .object id) :
    Imports heap (heap, value) where
  grows := .refl _ _
  ordered := id
  value id hid := absurd hid (h id)

theorem Fills.trans {between : Heap} (h : Fills heap id between) (h' : Fills between id result) :
    Fills heap id result where
  grows := h.grows.trans h'.grows (Nat.le_refl _)
  ordered hordered := h'.ordered (h.ordered hordered)

/-- What a document built becomes a property of an object that was there before. -/
theorem Imports.fills {built : Heap × Value} (h : Imports heap built) (hid : id.number < heap.size)
    (name : String) : Fills heap id (built.1.defineProperty id name built.2) where
  grows := (Grows.mk h.grows.size fun n hn => h.grows.keeps n (by omega)).trans
    (grows_defineProperty built.1 id name built.2) (Nat.le_refl _)
  ordered hordered := (h.ordered hordered).defineProperty
    (h.value.mono (Nat.succ_le_of_lt hid) (Nat.le_refl _))

/-- A new object that is filled. -/
theorem Fills.imports {className : String}
    (h : Fills (heap.alloc className).1 (heap.alloc className).2 result) :
    Imports heap (result, .object (heap.alloc className).2) where
  grows := (grows_alloc heap className).trans h.grows (Nat.le_refl _)
  ordered hordered := h.ordered (hordered.alloc className)
  value id hid := by
    obtain rfl := Value.object.inj hid
    have hsize := h.grows.size
    rw [size_alloc] at hsize
    exact ⟨Nat.le_refl _, hsize⟩

end

mutual

theorem imports_importJson (heap : Heap) : ∀ json : Json, Imports heap (heap.importJson json)
  | .null | .bool _ | .number _ | .string _ => by
    rw [importJson]
    exact .of_plain nofun
  | .array items => by
    rw [importJson]
    have hid : (heap.alloc "Array").2.number < (heap.alloc "Array").1.size := by
      rw [size_alloc]
      exact Nat.lt_succ_self _
    have hitems := fills_importItems (heap.alloc "Array").1 (heap.alloc "Array").2 0 hid items
    have hlength : Imports (importItems (heap.alloc "Array").1 (heap.alloc "Array").2 0 items)
        (_, .number (Float.ofNat items.length)) := .of_plain nofun
    exact (hitems.trans
      (hlength.fills (Nat.lt_of_lt_of_le hid hitems.grows.size) "length")).imports
  | .object members => by
    rw [importJson]
    have hid : (heap.alloc "Object").2.number < (heap.alloc "Object").1.size := by
      rw [size_alloc]
      exact Nat.lt_succ_self _
    exact (fills_importMembers (heap.alloc "Object").1 (heap.alloc "Object").2 hid members).imports

theorem fills_importItems (heap : Heap) (id : ObjectId) (index : Nat)
    (hid : id.number < heap.size) :
    ∀ items : List Json, Fills heap id (heap.importItems id index items)
  | [] => ⟨.refl _ _, fun hordered => by rwa [importItems]⟩
  | item :: rest => by
    rw [importItems]
    have hfirst := (imports_importJson heap item).fills hid (toString index)
    exact hfirst.trans (fills_importItems _ id (index + 1)
      (Nat.lt_of_lt_of_le hid hfirst.grows.size) rest)

theorem fills_importMembers (heap : Heap) (id : ObjectId) (hid : id.number < heap.size) :
    ∀ members : List (String × Json), Fills heap id (heap.importMembers id members)
  | [] => ⟨.refl _ _, fun hordered => by rwa [importMembers]⟩
  | (key, item) :: rest => by
    rw [importMembers]
    have hfirst := (imports_importJson heap item).fills hid key
    exact hfirst.trans (fills_importMembers _ id
      (Nat.lt_of_lt_of_le hid hfirst.grows.size) rest)

end

end Heap

/-! ## States -/

/-- The objects that a frame has are there. Only the one that it works for can be the global one. -/
structure Activation.Has (size : Nat) (a : Activation) : Prop where
  bindings : ∀ p ∈ a.bindings, ObjectIn 1 size p.2
  accumulator : ObjectIn 1 size a.accumulator
  this : ObjectIn 0 size a.this

theorem Activation.Has.mono {size size' : Nat} {a : Activation} (h : a.Has size)
    (hsize : size ≤ size') : a.Has size' where
  bindings p hp := (h.bindings p hp).mono (Nat.le_refl _) hsize
  accumulator := h.accumulator.mono (Nat.le_refl _) hsize
  this := h.this.mono (Nat.le_refl _) hsize

namespace State

open Source (Binding Operand Op)

/-- The objects of a machine are in order: wherever one is stored, it is there, and is not the
global one; and it was created after the object that it is stored in. -/
structure Sorted (s : State) : Prop where
  nonempty : 0 < s.heap.size
  ordered : s.heap.Ordered
  frames : ∀ a ∈ s.stack, a.Has s.heap.size
  queue : ∀ call ∈ s.deferred, ∀ v ∈ call.args, ObjectIn 1 s.heap.size v

section

variable {heap heap' : Heap} {a top : Activation} {below : List Activation} {size : Nat}
  {value : Value}

/-! ### Values that are read -/

theorem objectIn_undefined {low high : Nat} : ObjectIn low high .undefined := nofun

/-- A property was created after its object. -/
theorem objectIn_property (hordered : heap.Ordered) {id : ObjectId} {name : String}
    (h : heap.property? id name = some value) : ObjectIn (id.number + 1) heap.size value := by
  obtain ⟨o, ho, hvalue⟩ := Option.bind_eq_some_iff.1 h
  exact hordered id.number o (name, value) ho (mem_of_lookup hvalue)

theorem objectIn_read (hordered : heap.Ordered) (ha : a.Has heap.size) (name : String) :
    ObjectIn 1 heap.size (read heap a name) := by
  unfold read
  split
  · exact objectIn_undefined
  · rename_i hfound
    exact ha.bindings (name, _) (mem_of_lookup hfound)
  · cases hproperty : heap.property? Heap.globalId name with
    | none => exact objectIn_undefined
    | some value => exact objectIn_property hordered hproperty

/-- What evaluating operands does to a heap. -/
structure Evaluates (heap heap' : Heap) (values : List Value) : Prop where
  size : heap.size ≤ heap'.size
  ordered : heap'.Ordered
  values : ∀ v ∈ values, ObjectIn 1 heap'.size v

theorem evaluates_evaluate (hordered : heap.Ordered) (hnonempty : 0 < heap.size)
    (ha : a.Has heap.size) (operand : Operand) :
    Evaluates heap (evaluate heap a operand).1 [(evaluate heap a operand).2] := by
  cases operand with
  | literal json =>
      have himports := Heap.imports_importJson heap json
      refine ⟨himports.grows.size, himports.ordered hordered, ?_⟩
      intro v hv
      obtain rfl := List.mem_singleton.1 hv
      exact himports.value.mono hnonempty (Nat.le_refl _)
  | name name =>
      refine ⟨Nat.le_refl _, hordered, ?_⟩
      intro v hv
      obtain rfl := List.mem_singleton.1 hv
      exact objectIn_read hordered ha name

theorem evaluates_evaluateAll (hordered : heap.Ordered) (hnonempty : 0 < heap.size)
    (ha : a.Has heap.size) (operands : List Operand) :
    Evaluates heap (evaluateAll heap a operands).1 (evaluateAll heap a operands).2 := by
  induction operands generalizing heap with
  | nil => exact ⟨Nat.le_refl _, hordered, nofun⟩
  | cons operand rest ih =>
      have hfirst := evaluates_evaluate hordered hnonempty ha operand
      have hrest := ih hfirst.ordered (Nat.lt_of_lt_of_le hnonempty hfirst.size)
        (ha.mono hfirst.size)
      refine ⟨Nat.le_trans hfirst.size hrest.size, hrest.ordered, ?_⟩
      intro v hv
      rcases List.mem_cons.1 hv with rfl | hv
      · exact (hfirst.values _ List.mem_cons_self).mono (Nat.le_refl _) hrest.size
      · exact hrest.values v hv

/-! ### Values that are stored -/

theorem sorted_store (hordered : heap.Ordered) {bindings : List (String × Value)}
    (hbindings : ∀ p ∈ bindings, ObjectIn 1 heap.size p.2) (hvalue : ObjectIn 1 heap.size value)
    (binding : Binding) (name : String) :
    (store heap bindings binding name value).1.size = heap.size ∧
      (store heap bindings binding name value).1.Ordered ∧
      ∀ p ∈ (store heap bindings binding name value).2, ObjectIn 1 heap.size p.2 := by
  have hglobal : (heap.defineProperty Heap.globalId name value).Ordered :=
    hordered.defineProperty hvalue
  have hsize := Heap.size_defineProperty heap Heap.globalId name value
  cases binding with
  | globalProperty => exact ⟨hsize, hglobal, hbindings⟩
  | declare =>
      refine ⟨rfl, hordered, ?_⟩
      intro p hp
      rcases mem_define hp with rfl | hp
      · exact hvalue
      · exact hbindings p hp
  | assign =>
      rw [store]
      split
      · rename_i t ht
        refine ⟨rfl, hordered, ?_⟩
        intro p hp
        rcases mem_update? ht hp with rfl | hp
        · exact hvalue
        · exact hbindings p hp
      · split
        · exact ⟨hsize, hglobal, hbindings⟩
        · refine ⟨rfl, hordered, ?_⟩
          intro p hp
          rcases List.mem_append.1 hp with hp | hp
          · exact hbindings p hp
          · obtain rfl := List.mem_singleton.1 hp
            exact hvalue

theorem objectIn_initialBindings {params declared : List String} {args : List Value}
    (hargs : ∀ v ∈ args, ObjectIn 1 size v) :
    ∀ p ∈ Activation.initialBindings params declared args, ObjectIn 1 size p.2 := by
  have hbound : ∀ p ∈ params.zip (args ++ List.replicate params.length .undefined),
      ObjectIn 1 size p.2 := by
    intro p hp
    rcases List.mem_append.1 (List.of_mem_zip hp).2 with hv | hv
    · exact hargs p.2 hv
    · rw [List.eq_of_mem_replicate hv]
      exact objectIn_undefined
  unfold Activation.initialBindings
  generalize params.zip (args ++ List.replicate params.length .undefined) = bound at hbound
  induction declared generalizing bound with
  | nil => exact hbound
  | cons name rest ih =>
      refine ih _ ?_
      intro p hp
      dsimp only at hp
      split at hp
      · exact hbound p hp
      · rcases List.mem_append.1 hp with hp | hp
        · exact hbound p hp
        · obtain rfl := List.mem_singleton.1 hp
          exact nofun

/-! ### Steps -/

namespace Sorted

variable {s : State}

theorem initial (library : String → Option String) (program : Program) :
    (State.initial library program).Sorted where
  nonempty := Nat.one_pos
  ordered := Heap.ordered_initial
  frames _ ha := absurd ha List.not_mem_nil
  queue _ hcall := absurd hcall List.not_mem_nil

/-- A heap that has grown, and other frames. -/
theorem update (h : s.Sorted) (hgrows : s.heap.size ≤ heap.size) (hordered : heap.Ordered)
    {stack : List Activation} (hframes : ∀ a ∈ stack, a.Has heap.size) :
    ({ s with heap, stack } : State).Sorted where
  nonempty := Nat.lt_of_lt_of_le h.nonempty hgrows
  ordered := hordered
  frames := hframes
  queue call hcall v hv := (h.queue call hcall v hv).mono (Nat.le_refl _) hgrows

/-- Another running frame. -/
theorem retop (h : s.Sorted) (hstack : s.stack = top :: below) (hgrows : s.heap.size ≤ heap.size)
    (hordered : heap.Ordered) (htop : a.Has heap.size) :
    ({ s with heap, stack := a :: below } : State).Sorted := by
  refine h.update hgrows hordered ?_
  intro b hb
  rcases List.mem_cons.1 hb with rfl | hb
  · exact htop
  · exact (h.frames b (hstack ▸ List.mem_cons_of_mem top hb)).mono hgrows

theorem heap_push (s : State) (unit : UnitId) (args : List Value) (callee : Option String) :
    (State.push s unit args callee).heap = s.heap := by
  unfold State.push
  split <;> rfl

theorem push (h : s.Sorted) (unit : UnitId) {args : List Value}
    (hargs : ∀ v ∈ args, ObjectIn 1 s.heap.size v) (callee : Option String) :
    (State.push s unit args callee).Sorted := by
  unfold State.push
  split
  · exact h
  · rename_i code _
    refine ⟨h.nonempty, h.ordered, ?_, h.queue⟩
    intro a ha
    rcases List.mem_cons.1 ha with rfl | ha
    · refine ⟨objectIn_initialBindings hargs, objectIn_undefined, ?_⟩
      intro id hid
      dsimp only at hid
      split at hid
      · obtain rfl := Value.object.inj hid
        exact ⟨Nat.le_refl _, h.nonempty⟩
      · cases hid
    · exact h.frames a ha

theorem pop (h : s.Sorted) : s.pop.Sorted := by
  refine ⟨h.nonempty, h.ordered, ?_, h.queue⟩
  have htail : ∀ a ∈ s.stack.tail, a.Has s.heap.size :=
    fun a ha => h.frames a (List.mem_of_mem_tail ha)
  intro a ha
  rw [State.pop] at ha
  show a.Has s.heap.size
  generalize s.stack.tail = rest at ha htail
  cases rest with
  | nil => cases ha
  | cons caller rest =>
      rw [resumeCaller] at ha
      split at ha
      · rcases List.mem_cons.1 ha with rfl | ha
        · obtain ⟨hbindings, haccumulator, hthis⟩ := htail caller List.mem_cons_self
          exact ⟨hbindings, haccumulator, hthis⟩
        · exact htail a (List.mem_cons_of_mem caller ha)
      · exact htail a ha

theorem perform (h : s.Sorted) (hstack : s.stack = top :: below) (op : Op) :
    (s.perform top below op).Sorted := by
  have htop : top.Has s.heap.size := h.frames top (hstack ▸ List.mem_cons_self)
  have hpass : ({ s with stack := top.next :: below } : State).Sorted :=
    h.retop hstack (Nat.le_refl _) h.ordered ⟨htop.bindings, htop.accumulator, htop.this⟩
  cases op with
  | load operand =>
      have heval := evaluates_evaluate h.ordered h.nonempty htop operand
      have hgrown := htop.mono heval.size
      exact h.retop hstack heval.size heval.ordered
        ⟨hgrown.bindings, heval.values _ List.mem_cons_self, hgrown.this⟩
  | store binding name =>
      obtain ⟨hsize, hordered, hbindings⟩ :=
        sorted_store h.ordered htop.bindings htop.accumulator binding name
      rw [← hsize] at hbindings htop
      exact h.retop hstack (Nat.le_of_eq hsize.symm) hordered
        ⟨hbindings, objectIn_undefined, htop.this⟩
  | print operand =>
      have heval := evaluates_evaluate h.ordered h.nonempty htop operand
      have hgrown := htop.mono heval.size
      have hnext := h.retop hstack heval.size heval.ordered (a := top.next)
        ⟨hgrown.bindings, hgrown.accumulator, hgrown.this⟩
      exact ⟨hnext.nonempty, hnext.ordered, hnext.frames, hnext.queue⟩
  | call name args =>
      simp only [State.perform]
      split
      · have heval := evaluates_evaluateAll h.ordered h.nonempty htop args
        have hgrown := htop.mono heval.size
        have hwaits := h.retop hstack heval.size heval.ordered
          (a := { top with awaitingReturn := true })
          ⟨hgrown.bindings, hgrown.accumulator, hgrown.this⟩
        exact hwaits.push _ heval.values _
      · exact hpass
  | defer name args =>
      simp only [State.perform]
      split
      · rename_i callee _
        have heval := evaluates_evaluateAll h.ordered h.nonempty htop args
        have hgrown := htop.mono heval.size
        have hnext := h.retop hstack heval.size heval.ordered (a := top.next)
          ⟨hgrown.bindings, hgrown.accumulator, hgrown.this⟩
        refine ⟨hnext.nonempty, hnext.ordered, hnext.frames, ?_⟩
        intro call hcall
        rcases List.mem_append.1 hcall with hcall | hcall
        · exact hnext.queue call hcall
        · obtain rfl := List.mem_singleton.1 hcall
          exact heval.values
      · exact hpass
  | ret =>
      exact h.retop hstack (Nat.le_refl _) h.ordered
        (a := { top with pc := s.program.codeLength top.unit, boundarySeen := false })
        ⟨htop.bindings, htop.accumulator, htop.this⟩

/-- Objects never go away. -/
theorem size_perform (h : s.Sorted) (hstack : s.stack = top :: below) (op : Op) :
    s.heap.size ≤ (s.perform top below op).heap.size := by
  have htop : top.Has s.heap.size := h.frames top (hstack ▸ List.mem_cons_self)
  cases op with
  | load operand | print operand =>
      exact (evaluates_evaluate h.ordered h.nonempty htop operand).size
  | store binding name =>
      have hstore := sorted_store h.ordered htop.bindings htop.accumulator binding name
      exact Nat.le_of_eq hstore.1.symm
  | call name args =>
      simp only [State.perform]
      split
      · rw [heap_push]
        exact (evaluates_evaluateAll h.ordered h.nonempty htop args).size
      · exact Nat.le_refl _
  | defer name args =>
      simp only [State.perform]
      split
      · exact (evaluates_evaluateAll h.ordered h.nonempty htop args).size
      · exact Nat.le_refl _
  | ret => exact Nat.le_refl _

theorem size_step {hooks : Hooks} {t : State} {event : Option Event} (h : s.Sorted)
    (hstep : Step hooks s t event) : s.heap.size ≤ t.heap.size := by
  cases hstep with
  | start =>
      have hheap : s.start.heap = s.heap := by rw [State.start, heap_push]
      exact Nat.le_of_eq (congrArg Heap.size hheap.symm)
  | @unqueue call rest =>
      have hheap := heap_push { s with deferred := rest } call.unit call.args (some call.name)
      exact Nat.le_of_eq (congrArg Heap.size hheap.symm)
  | execute _ hstack => exact h.size_perform hstack _
  | finish | enter | report | leave | consider => exact Nat.le_refl _

/-- Every small step keeps the order. -/
theorem step {hooks : Hooks} {t : State} {event : Option Event} (h : s.Sorted)
    (hstep : Step hooks s t event) : t.Sorted := by
  have hmark : ∀ top below, s.stack = top :: below → ∀ a : Activation,
      a.bindings = top.bindings → a.accumulator = top.accumulator → a.this = top.this →
      ({ s with stack := a :: below } : State).Sorted := by
    intro top below hstack a hbindings haccumulator hthis
    have htop : top.Has s.heap.size := h.frames top (hstack ▸ List.mem_cons_self)
    refine h.retop hstack (Nat.le_refl _) h.ordered ⟨?_, ?_, ?_⟩
    · rw [hbindings]
      exact htop.bindings
    · rw [haccumulator]
      exact htop.accumulator
    · rw [hthis]
      exact htop.this
  cases hstep with
  | start =>
      have hstart : Sorted { s with started := true } :=
        ⟨h.nonempty, h.ordered, h.frames, h.queue⟩
      exact hstart.push ⟨0⟩ (fun v hv => absurd hv List.not_mem_nil) none
  | finish => exact h
  | @unqueue call rest _ _ hdeferred =>
      have hqueue := h.queue
      rw [hdeferred] at hqueue
      obtain ⟨hargs, hrest⟩ := List.forall_mem_cons.1 hqueue
      have htaken : Sorted { s with deferred := rest } :=
        ⟨h.nonempty, h.ordered, h.frames, hrest⟩
      exact htaken.push call.unit hargs _
  | enter _ hstack | report _ hstack | consider _ hstack => exact hmark _ _ hstack _ rfl rfl rfl
  | leave => exact h.pop
  | execute _ hstack => exact h.perform hstack _

end Sorted

end

end State

/-! ## Who holds an object -/

/-- A machine holds an object outside the heap. -/
inductive State.Holds (s : State) (id : ObjectId) : Prop
  /-- In a binding. -/
  | binding {a : Activation} {name : String} (ha : a ∈ s.stack)
    (hid : (name, Value.object id) ∈ a.bindings)
  /-- Between the two instructions of an assignment. -/
  | accumulator {a : Activation} (ha : a ∈ s.stack) (hid : a.accumulator = .object id)
  /-- As an argument of a deferred call. -/
  | argument {call : DeferredCall} (hcall : call ∈ s.deferred) (hid : Value.object id ∈ call.args)

/-- A property of one object holds another one. -/
def Heap.Points (heap : Heap) (holder id : ObjectId) : Prop :=
  ∃ o name, heap.get? holder = some o ∧ (name, Value.object id) ∈ o.properties

section

variable {s : State} {id holder : ObjectId}

/-- An object of a number below the size is there. -/
theorem Heap.isSome_get? {heap : Heap} (h : id.number < heap.size) : (heap.get? id).isSome := by
  rw [Heap.get?, List.getElem?_eq_getElem h]
  rfl

theorem State.Sorted.holds (h : s.Sorted) (hid : s.Holds id) :
    ObjectIn 1 s.heap.size (.object id) := by
  cases hid with
  | binding ha hid => exact (h.frames _ ha).bindings _ hid
  | accumulator ha hid => exact hid ▸ (h.frames _ ha).accumulator
  | argument hcall hid => exact h.queue _ hcall _ hid

theorem State.Sorted.points (h : s.Sorted) (hid : s.heap.Points holder id) :
    holder.number < id.number ∧ id.number < s.heap.size := by
  obtain ⟨o, name, ho, hid⟩ := hid
  exact h.ordered holder.number o _ ho hid id rfl

/-- Properties lead nowhere back. -/
theorem State.Sorted.acyclic (h : s.Sorted) : ¬Relation.TransGen s.heap.Points id id := by
  have hless : ∀ {a b : ObjectId}, Relation.TransGen s.heap.Points a b → a.number < b.number := by
    intro a b hpath
    induction hpath with
    | single hid => exact (h.points hid).1
    | tail _ hid ih => exact Nat.lt_trans ih (h.points hid).1
  intro hpath
  exact Nat.lt_irrefl _ (hless hpath)

end

end ScriptDebugger.Machine
