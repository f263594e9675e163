import ScriptDebugger.Proofs.Machine.Evaluator
/-!
# Scopes and units

A program keeps the blocks of its tree in one list, and what a function sees is found along the
parents of its unit. `Shows` ties a unit's number to the scope that the unit stands for, so that the
search over numbers and the search over blocks find the same function.

## Main results

* `lookupFunction_of_shows` — a name means the same function in a unit and in its scope.
-/

namespace ScriptDebugger.Machine

open Source (Block)

/-! ## Units of blocks -/

/-- The unit of a block, without those of its functions. -/
def unitOf (parent : Option UnitId) (id : Nat) (b : Block) : CodeUnit :=
  { name := b.name, params := b.params, declared := b.declaredNames, start := b.start,
    lineCount := b.lineCount, code := b.code, parent, children := siblingIds (id + 1) b.functions }

theorem flatten_eq (parent : Option UnitId) (id : Nat) (b : Block) :
    flatten parent id b = unitOf parent id b :: flattenAll (some ⟨id⟩) (id + 1) b.functions := by
  cases b
  rw [flatten]
  rfl

/-- The units of sibling blocks stand in the program from a number on. -/
def Lays (p : Program) (parent : Option UnitId) (first : Nat) (bs : List Block) : Prop :=
  ∃ front back, p.units = front ++ (flattenAll parent first bs ++ back) ∧ front.length = first

namespace Lays

variable {p : Program} {parent : Option UnitId} {id : Nat} {b : Block} {rest : List Block}

theorem head (h : Lays p parent id (b :: rest)) : Lays p parent id [b] := by
  obtain ⟨front, back, hunits, hfront⟩ := h
  refine ⟨front, flattenAll parent (id + blockCount b) rest ++ back, ?_, hfront⟩
  rw [hunits, flattenAll, flattenAll, flattenAll, List.append_nil, List.append_assoc]

theorem tail (h : Lays p parent id (b :: rest)) : Lays p parent (id + blockCount b) rest := by
  obtain ⟨front, back, hunits, rfl⟩ := h
  refine ⟨front ++ flatten parent front.length b, back, ?_, ?_⟩
  · rw [hunits, flattenAll, List.append_assoc, List.append_assoc]
  · rw [List.length_append, flatten_length]

theorem unit?_eq (h : Lays p parent id (b :: rest)) :
    p.unit? ⟨id⟩ = some (unitOf parent id b) := by
  obtain ⟨front, back, hunits, rfl⟩ := h
  rw [Program.unit?, hunits, flattenAll, flatten_eq, List.getElem?_append_right (Nat.le_refl _),
    Nat.sub_self]
  rfl

/-- The functions of a block stand right behind it. -/
theorem functions (h : Lays p parent id [b]) : Lays p (some ⟨id⟩) (id + 1) b.functions := by
  obtain ⟨front, back, hunits, rfl⟩ := h
  refine ⟨front ++ [unitOf parent front.length b], back, ?_, List.length_append⟩
  rw [hunits, flattenAll, flattenAll, List.append_nil, flatten_eq, List.append_assoc]
  rfl

theorem lt_length (h : Lays p parent id (b :: rest)) : id < p.units.length := by
  refine Nat.lt_of_not_le fun hle => ?_
  have hunit := h.unit?_eq
  rw [Program.unit?, List.getElem?_eq_none hle] at hunit
  cases hunit

end Lays

/-- Among siblings, a name finds the same function by number and by block. -/
theorem find?_siblingIds {p : Program} {parent : Option UnitId} {first : Nat} {bs : List Block}
    (h : Lays p parent first bs) (name : String) :
    match bs.find? fun f => f.name == some name with
    | none => (siblingIds first bs).find? (p.isFunctionNamed name) = none
    | some f => ∃ id, (siblingIds first bs).find? (p.isFunctionNamed name) = some ⟨id⟩ ∧
        first ≤ id ∧ Lays p parent id [f] := by
  induction bs generalizing first with
  | nil => rfl
  | cons b rest ih =>
      have hnamed : p.isFunctionNamed name ⟨first⟩ = (b.name == some name) := by
        rw [Program.isFunctionNamed, h.unit?_eq]
        rfl
      rw [siblingIds, List.find?_cons, List.find?_cons, hnamed]
      cases b.name == some name with
      | true => exact ⟨first, rfl, Nat.le_refl _, h.head⟩
      | false =>
          have hrest := ih h.tail
          cases hfind : rest.find? fun f => f.name == some name with
          | none =>
              rw [hfind] at hrest
              exact hrest
          | some f =>
              rw [hfind] at hrest
              obtain ⟨id, hid, hle, hlays⟩ := hrest
              exact ⟨id, hid, by omega, hlays⟩

/-- One unit is searched: a function of the block is found by number, and where the block has none
of the name, the search goes on in the parent. -/
theorem Lays.lookupFrom_succ {p : Program} {parent : Option UnitId} {id : Nat} {b : Block}
    (h : Lays p parent id [b]) (name : String) (depth : Nat) :
    match b.functions.find? fun f => f.name == some name with
    | none => p.lookupFrom name (depth + 1) ⟨id⟩ = parent.bind (p.lookupFrom name depth)
    | some f => ∃ child, p.lookupFrom name (depth + 1) ⟨id⟩ = some ⟨child⟩ ∧ id < child ∧
        Lays p (some ⟨id⟩) child [f] := by
  have hfind := find?_siblingIds h.functions name
  rw [Program.lookupFrom, h.unit?_eq]
  simp only [unitOf]
  cases hfunction : b.functions.find? fun f => f.name == some name with
  | none =>
      rw [hfunction] at hfind
      simp only [hfind]
      cases parent <;> rfl
  | some f =>
      rw [hfunction] at hfind
      obtain ⟨child, hchild, hlt, hlays⟩ := hfind
      simp only [hchild]
      exact ⟨child, rfl, hlt, hlays⟩

/-! ## Scopes of units -/

/-- The unit of the number stands for the innermost block of the scope, and its parents for the
blocks around. -/
inductive Shows (p : Program) : Nat → List Block → Prop
  | module {id : Nat} {b : Block} (h : Lays p none id [b]) : Shows p id [b]
  | function {id parent : Nat} {b : Block} {outer : List Block}
      (h : Lays p (some ⟨parent⟩) id [b]) (hlt : parent < id) (houter : Shows p parent outer) :
      Shows p id (b :: outer)

namespace Shows

variable {p : Program} {id : Nat} {b : Block} {outer scope : List Block}

/-- The module is the first unit. -/
theorem ofBlock (url : String) (module : Block) : Shows (Program.ofBlock url module) 0 [module] := by
  refine .module ⟨[], [], ?_, rfl⟩
  rw [flattenAll, flattenAll, List.append_nil, List.append_nil]
  rfl

theorem lays (h : Shows p id (b :: outer)) : ∃ parent, Lays p parent id [b] := by
  cases h with
  | module h => exact ⟨_, h⟩
  | function h => exact ⟨_, h⟩

/-- The unit has the code and the names of the block. -/
theorem unit?_eq (h : Shows p id (b :: outer)) :
    ∃ unit, p.unit? ⟨id⟩ = some unit ∧ unit.params = b.params ∧
      unit.declared = b.declaredNames ∧ unit.code = b.code := by
  obtain ⟨parent, hlays⟩ := h.lays
  exact ⟨_, hlays.unit?_eq, rfl, rfl, rfl⟩

theorem instruction?_eq (h : Shows p id (b :: outer)) (offset : Nat) :
    p.instruction? ⟨id⟩ offset = b.code[offset]? := by
  obtain ⟨unit, hunit, -, -, hcode⟩ := h.unit?_eq
  rw [Program.instruction?, hunit, Option.bind_some, hcode]

theorem codeLength_eq (h : Shows p id (b :: outer)) : p.codeLength ⟨id⟩ = b.code.length := by
  obtain ⟨unit, hunit, -, -, hcode⟩ := h.unit?_eq
  simp only [Program.codeLength, hunit, hcode]

/-- Numbers fall along the parents, so a scope is no deeper than there are units. -/
theorem length_le (h : Shows p id scope) : scope.length ≤ id + 1 := by
  induction h with
  | module => exact Nat.le_add_left 1 _
  | function _ hlt _ ih =>
      rw [List.length_cons]
      omega

/-- A name means the same function along the parents and along the scope. -/
theorem lookupFrom_eq (h : Shows p id scope) (name : String) {depth : Nat}
    (hdepth : scope.length ≤ depth) :
    match functionIn? name scope with
    | none => p.lookupFrom name depth ⟨id⟩ = none
    | some callee => ∃ child, p.lookupFrom name depth ⟨id⟩ = some ⟨child⟩ ∧ Shows p child callee := by
  induction h generalizing depth with
  | @module id b h =>
      obtain ⟨depth, rfl⟩ : ∃ n, depth = n + 1 := ⟨depth - 1, by simp at hdepth; omega⟩
      have hhere := h.lookupFrom_succ name depth
      rw [functionIn?]
      cases hfunction : b.functions.find? fun f => f.name == some name with
      | none =>
          rw [hfunction] at hhere
          exact hhere
      | some f =>
          rw [hfunction] at hhere
          obtain ⟨child, hchild, hlt, hlays⟩ := hhere
          exact ⟨child, hchild, .function hlays hlt (.module h)⟩
  | @function id parent b outer h hparent houter ih =>
      obtain ⟨depth, rfl⟩ : ∃ n, depth = n + 1 := ⟨depth - 1, by simp at hdepth; omega⟩
      have hhere := h.lookupFrom_succ name depth
      rw [functionIn?]
      cases hfunction : b.functions.find? fun f => f.name == some name with
      | none =>
          rw [hfunction] at hhere
          rw [hhere]
          exact ih (by simpa using hdepth)
      | some f =>
          rw [hfunction] at hhere
          obtain ⟨child, hchild, hlt, hlays⟩ := hhere
          exact ⟨child, hchild, .function hlays hlt (.function h hparent houter)⟩

end Shows

section

variable {p : Program} {id : Nat} {scope : List Block}

theorem length_le_units (h : Shows p id scope) : scope.length ≤ p.units.length := by
  have hlength := h.length_le
  cases h with
  | module h =>
      have hlt := h.lt_length
      omega
  | function h =>
      have hlt := h.lt_length
      omega

/-- A name means the same function in a unit and in its scope. -/
theorem lookupFunction_of_shows (h : Shows p id scope) {name : String} {callee : List Block}
    (hfunction : functionIn? name scope = some callee) :
    ∃ child, p.lookupFunction ⟨id⟩ name = some ⟨child⟩ ∧ Shows p child callee := by
  have hlookup := h.lookupFrom_eq name (length_le_units h)
  rw [hfunction] at hlookup
  exact hlookup

theorem lookupFunction_eq_none (h : Shows p id scope) {name : String}
    (hfunction : functionIn? name scope = none) : p.lookupFunction ⟨id⟩ name = none := by
  have hlookup := h.lookupFrom_eq name (length_le_units h)
  rw [hfunction] at hlookup
  exact hlookup

end

end ScriptDebugger.Machine
