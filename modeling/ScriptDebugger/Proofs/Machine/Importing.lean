import ScriptDebugger.Proofs.Json.Parsed
import ScriptDebugger.Proofs.Machine.Evaluator
import ScriptDebugger.Proofs.Machine.Objects
/-!
# Documents on the heap

A document is built from the outside in: an array or object is created first and filled while what
it holds is created behind it. Here the result is read back. The reader knows nothing of how objects
are made. It follows the numbers that it finds, takes from an array the properties `0`, `1`, … and
from any other object all properties in their order, and keeps a list of the objects it came by.

What carries the induction is that a value reads as its document on every later heap, as long as the
objects created for it are as they were (`Copied`). So a parent may be filled further, and more
objects may be created, while what was built before is left alone.

## Main results

* `read?_of_parts` — what an object with known values is read as.
* `filled_importMembers` — filling an object with the members of a document.
* `copied_importJson` — building a document.
* `import_reads_back` — a document is read back as it was, from new objects, one for each array and
  object in it.
-/

namespace ScriptDebugger

/-! ## Documents -/

namespace Json

mutual

/-- How many arrays and objects there are in a document, itself included. -/
def containers : Json → Nat
  | .null | .bool _ | .number _ | .string _ => 0
  | .array items => containersOfItems items + 1
  | .object members => containersOfMembers members + 1

/-- How many arrays and objects there are in the items of an array. -/
def containersOfItems : List Json → Nat
  | [] => 0
  | j :: rest => containers j + containersOfItems rest

/-- How many arrays and objects there are in the members of an object. -/
def containersOfMembers : List (String × Json) → Nat
  | [] => 0
  | (_, j) :: rest => containers j + containersOfMembers rest

end

mutual

/-- The document with every number as the double that it stands for. -/
def withDoubles : Json → Json
  | .null => .null
  | .bool b => .bool b
  | .number n => .number (.real n.toFloat)
  | .string s => .string s
  | .array items => .array (withDoublesOfItems items)
  | .object members => .object (withDoublesOfMembers members)

/-- The items of an array with every number as a double. -/
def withDoublesOfItems : List Json → List Json
  | [] => []
  | j :: rest => withDoubles j :: withDoublesOfItems rest

/-- The members of an object with every number as a double. -/
def withDoublesOfMembers : List (String × Json) → List (String × Json)
  | [] => []
  | (key, j) :: rest => (key, withDoubles j) :: withDoublesOfMembers rest

end

theorem withDoublesOfItems_eq (items : List Json) :
    withDoublesOfItems items = items.map withDoubles := by
  induction items with
  | nil => rfl
  | cons j rest ih => rw [withDoublesOfItems, ih, List.map_cons]

theorem withDoublesOfMembers_eq (members : List (String × Json)) :
    withDoublesOfMembers members =
      (members.map Prod.fst).zip (members.map fun m => m.2.withDoubles) := by
  induction members with
  | nil => rfl
  | cons m rest ih =>
      rw [withDoublesOfMembers, ih]
      rfl

end Json

namespace Machine

/-! ## Numbered names -/

/-- Gives the names `index`, `index + 1`, … to a list. -/
def numbered {α : Type} (index : Nat) : List α → List (String × α)
  | [] => []
  | a :: rest => (toString index, a) :: numbered (index + 1) rest

theorem toString_injective {m n : Nat} (h : toString m = toString n) : m = n := by
  have hdigits : Nat.toDigits 10 m = Nat.toDigits 10 n := by
    rw [Nat.toString_eq_ofList_toDigits, Nat.toString_eq_ofList_toDigits] at h
    exact String.ofList_injective h
  rw [← Nat.ofDigitChars_ten_toDigits (n := m), hdigits, Nat.ofDigitChars_ten_toDigits]

theorem toString_ne_length (n : Nat) : toString n ≠ "length" := by
  intro h
  have hdigit : 'l' ∈ Nat.toDigits 10 n → 'l'.isDigit = true :=
    Nat.isDigit_of_mem_toDigits (by decide) (by decide)
  rw [Nat.toString_eq_ofList_toDigits] at h
  have hdigits : Nat.toDigits 10 n = "length".toList := by rw [← h, String.toList_ofList]
  rw [hdigits] at hdigit
  exact absurd (hdigit (by decide)) (by decide)

section

variable {α : Type}

theorem length_numbered (index : Nat) (items : List α) :
    (numbered index items).length = items.length := by
  induction items generalizing index with
  | nil => rfl
  | cons a rest ih => rw [numbered, List.length_cons, ih, List.length_cons]

theorem map_snd_numbered (index : Nat) (items : List α) :
    (numbered index items).map Prod.snd = items := by
  induction items generalizing index with
  | nil => rfl
  | cons a rest ih => rw [numbered, List.map_cons, ih]

/-- The names depend on how many there are only. -/
theorem zip_names_numbered {β : Type} (index : Nat) {items : List α} {values : List β}
    (h : values.length = items.length) :
    ((numbered index items).map Prod.fst).zip values = numbered index values := by
  induction items generalizing index values with
  | nil =>
      obtain rfl := List.length_eq_zero_iff.1 h
      rfl
  | cons a rest ih =>
      cases values with
      | nil => cases h
      | cons value values =>
          have hrest := ih (index + 1) (Nat.succ.inj h)
          rw [numbered, List.map_cons, List.zip_cons_cons, hrest, numbered]

theorem exists_of_mem_numbered {index : Nat} {items : List α} {name : String}
    (h : name ∈ (numbered index items).map Prod.fst) : ∃ n, index ≤ n ∧ name = toString n := by
  induction items generalizing index with
  | nil => cases h
  | cons a rest ih =>
      rcases List.mem_cons.1 h with rfl | h
      · exact ⟨index, Nat.le_refl _, rfl⟩
      · obtain ⟨n, hle, hname⟩ := ih h
        exact ⟨n, Nat.le_of_succ_le hle, hname⟩

theorem length_not_mem_names (index : Nat) (items : List α) :
    "length" ∉ (numbered index items).map Prod.fst := by
  intro hmem
  obtain ⟨n, -, hname⟩ := exists_of_mem_numbered hmem
  exact toString_ne_length n hname.symm

theorem nodup_names_numbered (index : Nat) (items : List α) :
    ((numbered index items).map Prod.fst).Nodup := by
  induction items generalizing index with
  | nil => exact List.nodup_nil
  | cons a rest ih =>
      refine List.nodup_cons.2 ⟨fun hmem => ?_, ih (index + 1)⟩
      obtain ⟨n, hle, hname⟩ := exists_of_mem_numbered hmem
      exact absurd (toString_injective hname) (Nat.ne_of_lt hle)

end

theorem lookup_numbered (index i : Nat) (values : List Value) :
    lookup (toString (index + i)) (numbered index values) = values[i]? := by
  induction values generalizing index i with
  | nil => rfl
  | cons value rest ih =>
      rw [numbered, lookup_cons]
      cases i with
      | zero => exact if_pos rfl
      | succ i =>
          have hne : toString index ≠ toString (index + (i + 1)) := fun h => by
            have := toString_injective h
            omega
          rw [if_neg hne, List.getElem?_cons_succ, ← ih (index + 1) i, Nat.add_right_comm,
            Nat.add_assoc]

/-! ## Reading back -/

/-- The values of the properties `index`, `index + 1`, … up to the first number that is the name of
none, and no more than `limit`. -/
def valuesFrom (properties : List (String × Value)) (index : Nat) : (limit : Nat) → List Value
  | 0 => []
  | limit + 1 =>
    match lookup (toString index) properties with
    | some value => value :: valuesFrom properties (index + 1) limit
    | none => []

/-- What an object consists of: an array of its properties `0`, `1`, …, which have to be as many as
its `length` says, any other object of all its properties in their order. -/
def HeapObject.parts? (o : HeapObject) : Option (List Value) :=
  if o.className = "Array" then
    let values := valuesFrom o.properties 0 o.properties.length
    if lookup "length" o.properties = some (.number (Float.ofNat values.length)) then some values
    else none
  else some (o.properties.map Prod.snd)

/-- The document that an object is when its parts are so many documents. -/
def HeapObject.document (o : HeapObject) (parts : List Json) : Json :=
  if o.className = "Array" then .array parts else .object ((o.properties.map Prod.fst).zip parts)

/-- What comes of reading a value. -/
structure HeapReading where
  /-- The document that the value stands for. -/
  document : Json
  /-- The objects that it was read from, in the order of its arrays and objects as they are
  written; an object that is read twice stands there twice. -/
  objects : List ObjectId

namespace Heap

/-- Reads a value as a document in which no more than `depth` arrays and objects stand inside one
another. -/
def read? (heap : Heap) : (depth : Nat) → Value → Option HeapReading
  | _, .null => some ⟨.null, []⟩
  | _, .bool b => some ⟨.bool b, []⟩
  | _, .number x => some ⟨.number (.real x), []⟩
  | _, .string s => some ⟨.string s, []⟩
  | depth + 1, .object id => do
    let o ← heap.get? id
    let values ← o.parts?
    let readings ← values.mapM (read? heap depth)
    some ⟨o.document (readings.map HeapReading.document),
      id :: readings.flatMap HeapReading.objects⟩
  | _, _ => none

end Heap

/-! ### Parts -/

/-- Where the names are the places of values, the values are read off in their order. -/
theorem valuesFrom_eq_drop {properties : List (String × Value)} {values : List Value}
    (h : ∀ i : Nat, lookup (toString i) properties = values[i]?) {index limit : Nat}
    (hlimit : values.length ≤ index + limit) :
    valuesFrom properties index limit = values.drop index := by
  induction limit generalizing index with
  | zero => exact (List.drop_of_length_le hlimit).symm
  | succ limit ih =>
      rw [valuesFrom, h]
      cases hvalue : values[index]? with
      | none => exact (List.drop_of_length_le (List.getElem?_eq_none_iff.1 hvalue)).symm
      | some value =>
          obtain ⟨hlt, rfl⟩ := List.getElem?_eq_some_iff.1 hvalue
          rw [List.drop_eq_getElem_cons hlt, ← ih (by omega)]

/-- An array that is complete. -/
def arrayOf (values : List Value) : HeapObject :=
  ⟨"Array", numbered 0 values ++ [("length", .number (Float.ofNat values.length))]⟩

theorem parts?_arrayOf (values : List Value) : (arrayOf values).parts? = some values := by
  have hindex : ∀ i : Nat, lookup (toString i) (arrayOf values).properties = values[i]? := by
    intro i
    have hlength : ("length" : String) ≠ toString i := Ne.symm (toString_ne_length i)
    have hplace := lookup_numbered 0 i values
    rw [Nat.zero_add] at hplace
    rw [arrayOf, lookup_append, hplace, lookup_cons, if_neg hlength]
    exact Option.or_none
  have hlength : lookup "length" (arrayOf values).properties =
      some (.number (Float.ofNat values.length)) := by
    have hnone : lookup "length" (numbered 0 values) = none := by
      refine lookup_eq_none_iff.2 fun p hp hname => length_not_mem_names 0 values ?_
      exact hname ▸ List.mem_map_of_mem hp
    rw [arrayOf, lookup_append, hnone, lookup_cons, if_pos rfl]
    rfl
  have hvalues : valuesFrom (arrayOf values).properties 0 (arrayOf values).properties.length =
      values := by
    refine (valuesFrom_eq_drop hindex ?_).trans List.drop_zero
    rw [arrayOf, List.length_append, length_numbered]
    omega
  rw [HeapObject.parts?]
  simp only [hvalues]
  exact (if_pos rfl).trans (if_pos hlength)

theorem nodup_names_arrayOf (values : List Value) :
    ((arrayOf values).properties.map Prod.fst).Nodup := by
  rw [arrayOf, List.map_append, List.map_singleton]
  refine List.Nodup.append (nodup_names_numbered 0 values) (List.nodup_singleton _) ?_
  exact List.disjoint_singleton.2 (length_not_mem_names 0 values)

theorem define_of_not_mem {name : String} {value : Value} {entries : List (String × Value)}
    (h : name ∉ entries.map Prod.fst) : define name value entries = entries ++ [(name, value)] := by
  have hnone : update? name value entries = none := by
    refine update?_eq_none_iff_forall.2 fun p hp hname => h ?_
    exact hname ▸ List.mem_map_of_mem hp
  rw [define, hnone, Option.getD_none]

namespace Heap

/-- What an object with known parts is read as. -/
theorem read?_of_parts {heap : Heap} {depth : Nat} {id : ObjectId} {o : HeapObject}
    {values : List Value} {readings : List HeapReading} (ho : heap.get? id = some o)
    (hparts : o.parts? = some values) (hread : values.mapM (read? heap depth) = some readings) :
    heap.read? (depth + 1) (.object id) =
      some ⟨o.document (readings.map HeapReading.document),
        id :: readings.flatMap HeapReading.objects⟩ := by
  rw [read?, ho]
  simp only [Option.bind_eq_bind, Option.bind_some, hparts, hread]

/-! ## Building -/

/-- The later heap still has the objects from `low` on as they are. -/
def Agrees (low : Nat) (heap later : Heap) : Prop :=
  ∀ n, low ≤ n → n < heap.size → later.objects[n]? = heap.objects[n]?

/-- The numbers of `count` objects from `low` on. -/
def idsFrom (low count : Nat) : List ObjectId := (List.range' low count).map ObjectId.mk

theorem idsFrom_add (low m n : Nat) :
    idsFrom low m ++ idsFrom (low + m) n = idsFrom low (m + n) := by
  rw [idsFrom, idsFrom, idsFrom, ← List.map_append, List.range'_append_1]

/-- Every object from `low` on has no two properties of one name. -/
def NamesDistinct (low : Nat) (heap : Heap) : Prop :=
  ∀ n o, low ≤ n → heap.objects[n]? = some o → (o.properties.map Prod.fst).Nodup

/-- A document was built: its value is read back from new objects, whatever becomes of the others
later. -/
structure Copied (heap : Heap) (j : Json) (result : Heap × Value) : Prop where
  grows : Grows heap.size heap result.1
  size : result.1.size = heap.size + j.containers
  distinct : NamesDistinct heap.size result.1
  reads : ∀ later, Agrees heap.size result.1 later → ∀ depth, j.nesting ≤ depth →
    later.read? depth result.2 = some ⟨j.withDoubles, idsFrom heap.size j.containers⟩

/-- The members of a document were built into an object, as the given values. -/
structure Filled (heap : Heap) (id : ObjectId) (members : List (String × Json))
    (values : List Value) (result : Heap) : Prop where
  size : result.size = heap.size + Json.containersOfMembers members
  keeps : ∀ n < heap.size, n ≠ id.number → result.objects[n]? = heap.objects[n]?
  length : values.length = members.length
  content : ∀ o, heap.get? id = some o →
    (o.properties.map Prod.fst ++ members.map Prod.fst).Nodup →
    result.get? id = some { o with
      properties := o.properties ++ (members.map Prod.fst).zip values }
  distinct : NamesDistinct heap.size result
  reads : ∀ later, Agrees heap.size result later →
    ∀ depth, Json.nestingOfMembers members ≤ depth →
      ∃ readings, values.mapM (later.read? depth) = some readings ∧
        readings.map HeapReading.document = members.map (fun m => m.2.withDoubles) ∧
        readings.flatMap HeapReading.objects =
          idsFrom heap.size (Json.containersOfMembers members)

theorem namesDistinct_size (heap : Heap) : NamesDistinct heap.size heap := by
  intro n o hn ho
  exact absurd (List.getElem?_eq_some_iff.1 ho).1 (Nat.not_lt.2 hn)

section

variable {heap result : Heap} {id : ObjectId} {values : List Value}

theorem Copied.of_plain {j : Json} {value : Value} (hcontainers : j.containers = 0)
    (hread : ∀ (later : Heap) depth, later.read? depth value = some ⟨j.withDoubles, []⟩) :
    Copied heap j (heap, value) where
  grows := .refl _ _
  size := by rw [hcontainers]; rfl
  distinct := namesDistinct_size heap
  reads later _ depth _ := by
    rw [hread, hcontainers]
    rfl

theorem filled_nil (heap : Heap) (id : ObjectId) : Filled heap id [] [] heap where
  size := rfl
  keeps _ _ _ := rfl
  length := rfl
  content o ho _ := by rw [ho, List.map_nil, List.zip_nil_left, List.append_nil]
  distinct := namesDistinct_size heap
  reads _ _ _ _ := ⟨[], rfl, rfl, rfl⟩

/-- The first member is built, then it becomes a property, then the others follow. -/
theorem Copied.cons {key : String} {item : Json} {rest : List (String × Json)}
    {built : Heap × Value} (hfirst : Copied heap item built) (hid : id.number < heap.size)
    (hrest : Filled (built.1.defineProperty id key built.2) id rest values result) :
    Filled heap id ((key, item) :: rest) (built.2 :: values) result := by
  have hsize : (built.1.defineProperty id key built.2).size = built.1.size :=
    size_defineProperty _ _ _ _
  -- objects other than the one that is filled stay as the first member left them
  have hafter : ∀ n < built.1.size, n ≠ id.number →
      result.objects[n]? = built.1.objects[n]? := by
    intro n hn hne
    have hother : (⟨n⟩ : ObjectId) ≠ id := fun h => hne (congrArg ObjectId.number h)
    exact (hrest.keeps n (hsize ▸ hn) hne).trans (get?_defineProperty_ne hother)
  have hroom : heap.size ≤ built.1.size := hfirst.grows.size
  constructor
  case size =>
    rw [hrest.size, hsize, hfirst.size, Json.containersOfMembers, Nat.add_assoc]
  case keeps =>
    intro n hn hne
    exact (hafter n (Nat.lt_of_lt_of_le hn hroom) hne).trans (hfirst.grows.keeps n hn)
  case length => exact congrArg (· + 1) hrest.length
  case content =>
    intro o ho hnodup
    have hkeep : built.1.get? id = some o := (hfirst.grows.keeps id.number hid).trans ho
    have hlast : key ∉ o.properties.map Prod.fst := by
      intro hmem
      exact (List.nodup_append.1 hnodup).2.2 key hmem key List.mem_cons_self rfl
    have hdefined : (built.1.defineProperty id key built.2).get? id =
        some { o with properties := o.properties ++ [(key, built.2)] } := by
      rw [get?_defineProperty_self, hkeep, Option.map_some, define_of_not_mem hlast]
    have hmore := hrest.content _ hdefined (by simpa using hnodup)
    rw [hmore, List.append_assoc]
    rfl
  case distinct =>
    intro n o hn ho
    by_cases hlt : n < built.1.size
    · rw [hafter n hlt (by omega)] at ho
      exact hfirst.distinct n o hn ho
    · exact hrest.distinct n o (by omega) ho
  case reads =>
    intro later hlater depth hdepth
    rw [Json.nestingOfMembers, Nat.max_le] at hdepth
    have hitem : Agrees heap.size built.1 later := by
      intro n hn hlt
      have hend : n < result.size := by
        rw [hrest.size, hsize]
        omega
      exact (hlater n hn hend).trans (hafter n hlt (by omega))
    have hothers : Agrees (built.1.defineProperty id key built.2).size result later :=
      fun n hn hlt => hlater n (by omega) hlt
    obtain ⟨readings, hread, hdocuments, hobjects⟩ := hrest.reads later hothers depth hdepth.2
    refine ⟨⟨item.withDoubles, idsFrom heap.size item.containers⟩ :: readings, ?_, ?_, ?_⟩
    · rw [List.mapM_cons, hfirst.reads later hitem depth hdepth.1, hread]
      rfl
    · rw [List.map_cons, List.map_cons, hdocuments]
    · rw [List.flatMap_cons, hobjects, hsize, hfirst.size, idsFrom_add, Json.containersOfMembers]

/-- Filling an object with the members of a document, when each of them can be built on any heap. -/
theorem filled_importMembers {members : List (String × Json)}
    (h : ∀ m ∈ members, ∀ heap : Heap, Copied heap m.2 (heap.importJson m.2))
    (hid : id.number < heap.size) :
    ∃ values, Filled heap id members values (heap.importMembers id members) := by
  induction members generalizing heap with
  | nil =>
      rw [importMembers]
      exact ⟨[], filled_nil heap id⟩
  | cons m rest ih =>
      obtain ⟨key, item⟩ := m
      obtain ⟨hitem, hothers⟩ := List.forall_mem_cons.1 h
      have hfirst := hitem heap
      have hroom : id.number <
          ((heap.importJson item).1.defineProperty id key (heap.importJson item).2).size := by
        rw [size_defineProperty]
        exact Nat.lt_of_lt_of_le hid hfirst.grows.size
      obtain ⟨values, hrest⟩ := ih hothers hroom
      rw [importMembers]
      exact ⟨_, hfirst.cons hid hrest⟩

/-- A new object that was filled, and maybe changed once more, is read back from its parts. -/
theorem Filled.copied {className : String} {members : List (String × Json)} {filled : Heap}
    {o : HeapObject} {j : Json}
    (h : Filled (heap.alloc className).1 (heap.alloc className).2 members values filled)
    (hsize : result.size = filled.size)
    (hothers : ∀ n, n ≠ heap.size → result.objects[n]? = filled.objects[n]?)
    (ho : result.get? (heap.alloc className).2 = some o)
    (hnames : (o.properties.map Prod.fst).Nodup) (hparts : o.parts? = some values)
    (hcontainers : j.containers = Json.containersOfMembers members + 1)
    (hnesting : j.nesting = Json.nestingOfMembers members + 1)
    (hdocument : o.document (members.map fun m => m.2.withDoubles) = j.withDoubles) :
    Copied heap j (result, .object (heap.alloc className).2) := by
  have hend : result.size = heap.size + 1 + Json.containersOfMembers members := by
    rw [hsize, h.size, size_alloc]
  constructor
  case grows =>
    refine ⟨by simp only [hend]; omega, fun n hn => ?_⟩
    have hne : n ≠ heap.size := Nat.ne_of_lt hn
    have hlt : n < (heap.alloc className).1.size := by
      rw [size_alloc]
      omega
    have hkept := (h.keeps n hlt hne).trans ((grows_alloc heap className).keeps n hn)
    exact (hothers n hne).trans hkept
  case size =>
    simp only [hend, hcontainers]
    omega
  case distinct =>
    intro n p hn hp
    by_cases heq : n = heap.size
    · subst heq
      obtain rfl := Option.some.inj (ho.symm.trans hp)
      exact hnames
    · have hbehind : (heap.alloc className).1.size ≤ n := by
        rw [size_alloc]
        omega
      exact h.distinct n p hbehind ((hothers n heq).symm.trans hp)
  case reads =>
    intro later hlater depth hdepth
    obtain ⟨depth, rfl⟩ : ∃ d, depth = d + 1 := ⟨depth - 1, by omega⟩
    have hself : later.get? (heap.alloc className).2 = some o :=
      (hlater heap.size (Nat.le_refl _) (by simp only [hend]; omega)).trans ho
    have hrest : Agrees (heap.alloc className).1.size filled later := by
      intro n hn hlt
      rw [size_alloc] at hn
      exact (hlater n (by omega) (hsize ▸ hlt)).trans (hothers n (by omega))
    obtain ⟨readings, hread, hdocuments, hobjects⟩ := h.reads later hrest depth (by omega)
    rw [read?_of_parts hself hparts hread, hdocuments, hdocument, hobjects, hcontainers, size_alloc]
    rfl

end

/-! ### Arrays -/

/-- An array is filled as an object whose keys are the places of the items. -/
theorem importItems_eq (heap : Heap) (id : ObjectId) (index : Nat) (items : List Json) :
    heap.importItems id index items = heap.importMembers id (numbered index items) := by
  induction items generalizing heap index with
  | nil => rw [importItems, numbered, importMembers]
  | cons j rest ih =>
      rw [importItems, numbered, importMembers]
      exact ih _ _

theorem containersOfMembers_numbered (index : Nat) (items : List Json) :
    Json.containersOfMembers (numbered index items) = Json.containersOfItems items := by
  induction items generalizing index with
  | nil => rfl
  | cons j rest ih => rw [numbered, Json.containersOfMembers, ih, Json.containersOfItems]

theorem nestingOfMembers_numbered (index : Nat) (items : List Json) :
    Json.nestingOfMembers (numbered index items) = Json.nestingOfItems items := by
  induction items generalizing index with
  | nil => rfl
  | cons j rest ih => rw [numbered, Json.nestingOfMembers, ih, Json.nestingOfItems]

theorem get?_alloc (heap : Heap) (className : String) :
    (heap.alloc className).1.get? (heap.alloc className).2 = some ⟨className, []⟩ :=
  List.getElem?_concat_length

theorem lt_size_alloc (heap : Heap) (className : String) :
    (heap.alloc className).2.number < (heap.alloc className).1.size := by
  rw [size_alloc]
  exact Nat.lt_succ_self _

section

variable {heap : Heap}

theorem copied_array {items : List Json}
    (h : ∀ j ∈ items, ∀ heap : Heap, Copied heap j (heap.importJson j)) :
    Copied heap (.array items) (heap.importJson (.array items)) := by
  have hmembers : ∀ m ∈ numbered 0 items, ∀ heap : Heap, Copied heap m.2 (heap.importJson m.2) := by
    intro m hm
    refine h m.2 ?_
    rw [← map_snd_numbered 0 items]
    exact List.mem_map_of_mem hm
  obtain ⟨values, hfilled⟩ := filled_importMembers hmembers (lt_size_alloc heap "Array")
  have hlength : values.length = items.length := by rw [hfilled.length, length_numbered]
  have hcontent := hfilled.content _ (get?_alloc heap "Array") (nodup_names_numbered 0 items)
  rw [zip_names_numbered 0 hlength, ← importItems_eq] at hcontent
  rw [← importItems_eq] at hfilled
  have hcomplete :
      (((heap.alloc "Array").1.importItems (heap.alloc "Array").2 0 items).defineProperty
        (heap.alloc "Array").2 "length" (.number (Float.ofNat items.length))).get?
          (heap.alloc "Array").2 = some (arrayOf values) := by
    rw [get?_defineProperty_self, hcontent, Option.map_some]
    simp only [List.nil_append]
    rw [define_of_not_mem (length_not_mem_names 0 values), ← hlength]
    rfl
  rw [importJson]
  refine hfilled.copied (size_defineProperty _ _ _ _) (fun n hne => ?_) hcomplete
    (nodup_names_arrayOf values) (parts?_arrayOf values) ?_ ?_ ?_
  · exact get?_defineProperty_ne fun h => hne (congrArg ObjectId.number h)
  · rw [Json.containers, containersOfMembers_numbered]
  · rw [Json.nesting, nestingOfMembers_numbered]
  · have hdocuments : (numbered 0 items).map (fun m => m.2.withDoubles) =
        items.map Json.withDoubles := by
      conv_rhs => rw [← map_snd_numbered 0 items, List.map_map]
      rfl
    rw [hdocuments, Json.withDoubles, Json.withDoublesOfItems_eq]
    exact if_pos rfl

/-! ### Objects -/

theorem copied_object {members : List (String × Json)} (hkeys : (members.map Prod.fst).Nodup)
    (h : ∀ m ∈ members, ∀ heap : Heap, Copied heap m.2 (heap.importJson m.2)) :
    Copied heap (.object members) (heap.importJson (.object members)) := by
  obtain ⟨values, hfilled⟩ := filled_importMembers h (lt_size_alloc heap "Object")
  have hlength : (members.map Prod.fst).length = values.length := by
    rw [List.length_map, hfilled.length]
  have hcontent := hfilled.content _ (get?_alloc heap "Object") hkeys
  have hnames : ((members.map Prod.fst).zip values).map Prod.fst = members.map Prod.fst :=
    List.map_fst_zip (Nat.le_of_eq hlength)
  have hclass : ("Object" : String) ≠ "Array" := by decide
  rw [importJson]
  refine hfilled.copied rfl (fun _ _ => rfl) hcontent ?_ ?_ rfl rfl ?_
  · rw [List.nil_append, hnames]
    exact hkeys
  · rw [HeapObject.parts?, if_neg hclass, List.nil_append,
      List.map_snd_zip (Nat.le_of_eq hlength.symm)]
  · rw [HeapObject.document, if_neg hclass, List.nil_append, hnames, Json.withDoubles,
      Json.withDoublesOfMembers_eq]

end

/-! ### Any document -/

mutual

theorem copied_importJson (j : Json) (h : j.KeysDistinct) (heap : Heap) :
    Copied heap j (heap.importJson j) := by
  cases j with
  | null | bool | number | string =>
      rw [importJson]
      refine .of_plain rfl fun later depth => ?_
      rw [read?]
      rfl
  | array items => exact copied_array (copied_of_mem_items items h)
  | object members => exact copied_object h.1 (copied_of_mem_members members h.2)

theorem copied_of_mem_items (items : List Json) (h : Json.KeysDistinctOfItems items) :
    ∀ j ∈ items, ∀ heap : Heap, Copied heap j (heap.importJson j) := by
  match items with
  | [] => exact List.forall_mem_nil _
  | j :: rest =>
      exact List.forall_mem_cons.2 ⟨copied_importJson j h.1, copied_of_mem_items rest h.2⟩

theorem copied_of_mem_members (members : List (String × Json))
    (h : Json.KeysDistinctOfMembers members) :
    ∀ m ∈ members, ∀ heap : Heap, Copied heap m.2 (heap.importJson m.2) := by
  match members with
  | [] => exact List.forall_mem_nil _
  | (_, j) :: rest =>
      exact List.forall_mem_cons.2 ⟨copied_importJson j h.1, copied_of_mem_members rest h.2⟩

end

/-! ## Reading back what was built -/

/-- A document without repeated keys, such as any in canonical form, is built behind the objects
that there are, which stay as they are. There is one new object for each array and object of it,
whose properties have distinct names, and no other. The value reads as the document with its numbers
as doubles, each array and object from a new object of its own. -/
theorem import_reads_back :
    (∀ j : Json, j.canonical.KeysDistinct) ∧
      ∀ (heap : Heap) (j : Json), j.KeysDistinct →
        ∃ fresh : List HeapObject,
          (heap.importJson j).1.objects = heap.objects ++ fresh ∧
            fresh.length = j.containers ∧
            (∀ o ∈ fresh, (o.properties.map Prod.fst).Nodup) ∧
            ∀ depth, j.nesting ≤ depth →
              (heap.importJson j).1.read? depth (heap.importJson j).2 =
                some ⟨j.withDoubles, idsFrom heap.size j.containers⟩ := by
  refine ⟨Json.keysDistinct_canonical, fun heap j hkeys => ?_⟩
  have hcopied := copied_importJson j hkeys heap
  have hfront : heap.objects <+: (heap.importJson j).1.objects := by
    refine List.prefix_iff_getElem?.2 fun n hn => ?_
    exact (hcopied.grows.keeps n hn).trans (List.getElem?_eq_getElem hn)
  obtain ⟨fresh, hfresh⟩ := hfront
  have hsize := hcopied.size
  rw [size, ← hfresh, List.length_append] at hsize
  refine ⟨fresh, hfresh.symm, Nat.add_left_cancel hsize, fun o ho => ?_, fun depth hdepth => ?_⟩
  · obtain ⟨i, hi⟩ := List.getElem?_of_mem ho
    refine hcopied.distinct (heap.objects.length + i) o (Nat.le_add_right _ _) ?_
    rw [← hfresh, List.getElem?_append_right (Nat.le_add_right _ _)]
    exact (congrArg (fresh[·]?) (Nat.add_sub_cancel_left _ _)).trans hi
  · exact hcopied.reads _ (fun _ _ _ => rfl) depth hdepth

/-- An array in an object, and an object in the array. -/
def nestedDocument : Json :=
  .object [("b", .array [.number (.int 1), .object [], .string "x"]), ("a", .null)]

theorem import_reads_back_nested :
    nestedDocument.KeysDistinct ∧
      (Heap.initial.importJson nestedDocument).1.read? 3
          (Heap.initial.importJson nestedDocument).2 =
        some ⟨.object [("b", .array [.number (.real (Float.ofInt 1)), .object [], .string "x"]),
          ("a", .null)], [⟨1⟩, ⟨2⟩, ⟨3⟩]⟩ := by
  have hkeys : nestedDocument.KeysDistinct :=
    ⟨by decide, ⟨trivial, ⟨List.nodup_nil, trivial⟩, trivial, trivial⟩, trivial, trivial⟩
  obtain ⟨-, -, -, -, hread⟩ := import_reads_back.2 .initial nestedDocument hkeys
  exact ⟨hkeys, hread 3 (by decide)⟩

end Heap

end Machine

end ScriptDebugger
