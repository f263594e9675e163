import ScriptDebugger.Json.Fields
import ScriptDebugger.Proofs.Json.ReadBack
/-!
# Reading back records

A record is written as the members of those of its fields that have a value. Reading asks for all
fields by name and gets each of them back, with a value or without.

A record that is part of a message may only be so deep, and its numbers have to fit. `Holds` says
both of a document, and is put together from the parts of the document.

## Main results

* `fields?_ofSlots` — the fields of a written record.
* `nat32?_ofNat`, `nat64?_ofNat`, `int64?_ofInt`, `optional?_map`, `list?_map` — the values of fields.
* `readsOnly_nat32`, `ReadsOnly.list` — what can be read of a value that was written.
* `Holds.object`, `Holds.array` — a document fits when its parts do.
-/

namespace ScriptDebugger.Json

/-! ## Fields -/

/-- The members for fields, each with a value or without. -/
def ofSlots (slots : List (String × Option Json)) : List (String × Json) :=
  slots.flatMap fun slot => (slot.2.map fun value => (slot.1, value)).toList

theorem ofSlots_cons (name : String) (value : Option Json) (slots : List (String × Option Json)) :
    ofSlots ((name, value) :: slots) = (value.map fun v => (name, v)).toList ++ ofSlots slots :=
  List.flatMap_cons

theorem ofSlots_optional {α : Type} (name : String) (write : α → Json) (value : Option α) :
    optionalMember name write value = ofSlots [(name, value.map write)] := by
  cases value <;> rfl

/-- A member comes from the slot with its key. -/
theorem mem_of_mem_ofSlots {slots : List (String × Option Json)} {m : String × Json}
    (h : m ∈ ofSlots slots) : (m.1, some m.2) ∈ slots := by
  obtain ⟨slot, hslot, hm⟩ := List.mem_flatMap.1 h
  obtain ⟨value, hvalue, rfl⟩ := Option.map_eq_some_iff.1 (Option.mem_toList.1 hm)
  rw [← hvalue]
  exact hslot

theorem filter_ofSlots_of_not_mem {slots : List (String × Option Json)} {name : String}
    (h : name ∉ slots.map Prod.fst) : (ofSlots slots).filter (fun m => m.1 == name) = [] := by
  refine List.filter_eq_nil_iff.2 fun m hm hname => h ?_
  rw [← beq_iff_eq.1 hname]
  exact List.mem_map_of_mem (mem_of_mem_ofSlots hm)

/-- What a slot holds is what the field with its name has. -/
theorem field?_ofSlots {slots : List (String × Option Json)} (hnodup : (slots.map Prod.fst).Nodup)
    {name : String} {value : Option Json} (hmem : (name, value) ∈ slots) :
    field? (ofSlots slots) name = some value := by
  induction slots with
  | nil => cases hmem
  | cons slot slots ih =>
      obtain ⟨other, held⟩ := slot
      rw [List.map_cons, List.nodup_cons] at hnodup
      cases List.mem_cons.1 hmem with
      | inl hhead =>
          obtain ⟨rfl, rfl⟩ := Prod.mk.inj hhead
          rw [field?, ofSlots_cons, List.filter_append, filter_ofSlots_of_not_mem hnodup.1]
          cases value with
          | none => rfl
          | some v => simp
      | inr htail =>
          have hne : (other == name) = false := by
            refine beq_false_of_ne fun heq => hnodup.1 ?_
            exact List.mem_map.2 ⟨(name, value), htail, heq.symm⟩
          have hskip :
              (held.map fun v => (other, v)).toList.filter (fun m => m.1 == name) = [] := by
            cases held with
            | none => rfl
            | some v => simp [hne]
          have hothers := ih hnodup.2 htail
          rw [field?] at hothers ⊢
          rw [ofSlots_cons, List.filter_append, hskip]
          exact hothers

/-- The fields of a written record. -/
theorem fields?_ofSlots {names : List String} (slots : List (String × Option Json))
    (hnames : slots.map Prod.fst = names) (hnodup : names.Nodup) :
    fields? names (.object (ofSlots slots)) = some (slots.map Prod.snd) := by
  subst hnames
  have asked : ∀ part : List (String × Option Json), part ⊆ slots →
      fieldsOfMembers? (ofSlots slots) (part.map Prod.fst) = some (part.map Prod.snd) := by
    intro part hpart
    induction part with
    | nil => rfl
    | cons slot part ih =>
        have hfirst := field?_ofSlots hnodup (hpart List.mem_cons_self)
        have hothers := ih fun other hother => hpart (List.mem_cons_of_mem slot hother)
        rw [List.map_cons, fieldsOfMembers?, hfirst, hothers]
        rfl
  exact asked slots (List.Subset.refl slots)

/-- The fields of a record that all have a value. -/
theorem fields?_object {names : List String} {members : List (String × Json)}
    (hnames : members.map Prod.fst = names) (hnodup : names.Nodup) :
    fields? names (.object members) = some (members.map fun m => some m.2) := by
  have hslots : ofSlots (members.map fun m => (m.1, some m.2)) = members := by
    simp [ofSlots, List.flatMap_map]
  have hfields := fields?_ofSlots (members.map fun m => (m.1, some m.2))
    (by rw [List.map_map]; exact hnames) hnodup
  rw [hslots, List.map_map] at hfields
  exact hfields

/-! ## Values -/

theorem intIn?_ofInt {low high n : Int} (h : low ≤ n ∧ n ≤ high) :
    intIn? low high (ofInt n) = some n := if_pos h

theorem natIn?_ofNat {n bound : Nat} (h : n < bound) :
    (intIn? 0 (bound - 1) (ofNat n)).map Int.toNat = some n := by
  have hrange : (0 : Int) ≤ n ∧ (n : Int) ≤ bound - 1 := by omega
  show (intIn? 0 _ (ofInt n)).map Int.toNat = _
  rw [intIn?_ofInt hrange]
  rfl

theorem nat32?_ofNat {n : Nat} (h : n < UInt32.size) : nat32? (ofNat n) = some n :=
  natIn?_ofNat h

theorem nat64?_ofNat {n : Nat} (h : n < UInt64.size) : nat64? (ofNat n) = some n :=
  natIn?_ofNat h

theorem reread_ofNat {n : Nat} (h : n < UInt64.size) : reread (ofNat n) = some (ofNat n) := by
  refine reread_of_fitsWord ?_
  show -((UInt64.size : Int) / 2) ≤ n ∧ (n : Int) < UInt64.size
  omega

/-- Whether an integer has 64 bits, one of them for the sign. -/
def IsInt64 (n : Int) : Prop := -9223372036854775808 ≤ n ∧ n ≤ 9223372036854775807

theorem int64?_ofInt {n : Int} (h : IsInt64 n) : int64? (ofInt n) = some n := intIn?_ofInt h

theorem optional?_map {α : Type} {read : Json → Option α} {write : α → Json} {value : Option α}
    (hnull : ∀ a, write a ≠ .null) (hread : ∀ a ∈ value, read (write a) = some a) :
    optional? read (value.map write) = some value := by
  cases value with
  | none => rfl
  | some a =>
      rw [Option.map_some, optional?, hread a rfl]
      · rfl
      · exact hnull a

theorem list?_map {α : Type} {read : Json → Option α} {write : α → Json} {items : List α}
    (hread : ∀ a ∈ items, read (write a) = some a) :
    list? read (.array (items.map write)) = some items := by
  induction items with
  | nil => rfl
  | cons a items ih =>
      have hothers := ih fun b hb => hread b (List.mem_cons_of_mem a hb)
      rw [list?] at hothers ⊢
      rw [List.map_cons, List.mapM_cons, hread a List.mem_cons_self, hothers]
      rfl

/-! ## Values that were written -/

section

variable {α : Type} {read : Json → Option α} {write : α → Json}

/-- Whether nothing is read of a written value but the value, whatever its numbers read as. -/
def ReadsOnly (read : Json → Option α) (write : α → Json) : Prop :=
  ∀ {a : α} {j : Json} {b : α}, reread (write a) = some j → read j = some b → b = a

theorem lt_of_nat32? {j : Json} {n : Nat} (h : nat32? j = some n) : n < UInt32.size := by
  obtain ⟨i, hi, rfl⟩ := Option.map_eq_some_iff.1 h
  unfold intIn? at hi
  split at hi
  · split at hi
    · obtain rfl := Option.some.inj hi
      simp only [UInt32.size] at *
      omega
    · cases hi
  · cases hi

/-- A number that is no word reads as a double, which is no natural number. -/
theorem readsOnly_nat32 : ReadsOnly nat32? ofNat := by
  intro n j b hj hb
  obtain ⟨m, hm, rfl⟩ := Option.map_eq_some_iff.1 hj
  rcases Number.of_read?_nat hm with rfl | ⟨x, rfl⟩
  · have hlt : (b : Int) = n := by
      obtain ⟨i, hi, rfl⟩ := Option.map_eq_some_iff.1 hb
      simp only [intIn?] at hi
      split at hi
      · obtain rfl := Option.some.inj hi
        exact Int.toNat_of_nonneg (Int.natCast_nonneg n)
      · cases hi
    exact Int.ofNat_inj.1 hlt
  · cases hb

theorem readsOnly_string : ReadsOnly string? .string := by
  intro s j b hj hb
  obtain rfl := Option.some.inj hj
  exact (Option.some.inj hb).symm

/-- Of a list that was written nothing is read but the list. -/
theorem ReadsOnly.list (h : ReadsOnly read write) :
    ReadsOnly (list? read) fun items => .array (items.map write) := by
  intro items j read hj hread
  obtain ⟨written, hwritten, rfl⟩ := Option.map_eq_some_iff.1 hj
  rw [list?] at hread
  clear hj
  induction items generalizing written read with
  | nil =>
      obtain rfl := Option.some.inj hwritten
      exact (Option.some.inj hread).symm
  | cons a items ih =>
      obtain ⟨k, hk, hwritten⟩ := Option.bind_eq_some_iff.1 hwritten
      obtain ⟨rest, hrest, rfl⟩ := Option.map_eq_some_iff.1 hwritten
      rw [List.mapM_cons] at hread
      obtain ⟨b, hb, hread⟩ := Option.bind_eq_some_iff.1 hread
      obtain ⟨others, hothers, hread⟩ := Option.bind_eq_some_iff.1 hread
      obtain rfl := Option.some.inj hread
      rw [h hk hb, ih rest hrest hothers]

end

/-! ## Depth and numbers -/

/-- A document of no more than some depth, whose numbers are integers of 64 bits. -/
structure Holds (depth : Nat) (j : Json) : Prop where
  nesting : j.nesting ≤ depth
  numbers : j.AllNumbers Number.FitsWord

namespace Holds

theorem mono {depth deeper : Nat} {j : Json} (h : Holds depth j) (hle : depth ≤ deeper) :
    Holds deeper j := ⟨Nat.le_trans h.nesting hle, h.numbers⟩

theorem bool {depth : Nat} (b : Bool) : Holds depth (.bool b) := ⟨Nat.zero_le depth, trivial⟩

theorem string {depth : Nat} (s : String) : Holds depth (.string s) := ⟨Nat.zero_le depth, trivial⟩

theorem ofInt {depth : Nat} {n : Int} (h : IsInt64 n) : Holds depth (.ofInt n) := by
  refine ⟨Nat.zero_le depth, ?_⟩
  show -((UInt64.size : Int) / 2) ≤ n ∧ n < UInt64.size
  obtain ⟨hlow, hhigh⟩ := h
  simp only [UInt64.size]
  omega

theorem ofNat {depth n : Nat} (h : n < UInt32.size) : Holds depth (.ofNat n) := by
  refine ofInt ?_
  simp only [IsInt64, UInt32.size] at h ⊢
  omega

theorem array {depth : Nat} {items : List Json} (h : ∀ j ∈ items, Holds depth j) :
    Holds (depth + 1) (.array items) where
  nesting := Nat.succ_le_succ (nestingOfItems_le_iff.2 fun j hj => (h j hj).nesting)
  numbers := allNumbersOfItems_iff.2 fun j hj => (h j hj).numbers

theorem array_map {α : Type} {depth : Nat} {write : α → Json} {items : List α}
    (h : ∀ a ∈ items, Holds depth (write a)) : Holds (depth + 1) (.array (items.map write)) := by
  refine .array fun j hj => ?_
  obtain ⟨a, ha, rfl⟩ := List.mem_map.1 hj
  exact h a ha

theorem object {depth : Nat} {members : List (String × Json)}
    (h : ∀ m ∈ members, Holds depth m.2) : Holds (depth + 1) (.object members) where
  nesting := Nat.succ_le_succ (nestingOfMembers_le_iff.2 fun m hm => (h m hm).nesting)
  numbers := allNumbersOfMembers_iff.2 fun m hm => (h m hm).numbers

/-- A record is put together from the slots that have a value. -/
theorem record {depth : Nat} {slots : List (String × Option Json)}
    (h : ∀ slot ∈ slots, ∀ j ∈ slot.2, Holds depth j) :
    Holds (depth + 1) (.object (ofSlots slots)) :=
  .object fun m hm => h _ (mem_of_mem_ofSlots hm) m.2 rfl

theorem of_some {depth : Nat} {j : Json} (h : Holds depth j) : ∀ k ∈ some j, Holds depth k := by
  intro k hk
  obtain rfl := Option.some.inj hk
  exact h

theorem of_map {α : Type} {depth : Nat} {write : α → Json} {value : Option α}
    (h : ∀ a ∈ value, Holds depth (write a)) : ∀ j ∈ value.map write, Holds depth j := by
  intro j hj
  obtain ⟨a, ha, rfl⟩ := Option.map_eq_some_iff.1 hj
  exact h a ha

end Holds

end ScriptDebugger.Json
