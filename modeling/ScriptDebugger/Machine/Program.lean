import ScriptDebugger.Engine.Value
import ScriptDebugger.Source.Compile
/-!
# Loaded programs

A machine runs a block tree as a list of code units: the module first, and every function after the
block around it, in source order. A unit's number is its place in that list. Units know the unit
around them, which is what the search for a called function walks along.

## Main results

* `flatten_length`, `flattenAll_length` — a block tree makes as many units as it has blocks.
-/

namespace ScriptDebugger.Machine

open Source (Block Instruction)

/-- A module or the body of a function, as it is run. -/
structure CodeUnit where
  /-- The function's name; the module has none. -/
  name : Option String
  /-- The function's parameters. -/
  params : List String
  /-- The names of the bindings that a frame starts with: the parameters, then the declared
  names. -/
  declared : List String
  /-- Where the unit starts. -/
  start : Location
  /-- How many lines it takes. -/
  lineCount : Nat
  /-- The instructions. -/
  code : List Instruction
  /-- The unit around this one. -/
  parent : Option UnitId
  /-- The units of the functions declared directly inside. -/
  children : List UnitId

mutual

/-- How many blocks a block tree has. -/
def blockCount : Block → Nat
  | ⟨_, _, _, _, _, functions⟩ => 1 + blockCounts functions

/-- How many blocks several trees have together. -/
def blockCounts : List Block → Nat
  | [] => 0
  | b :: rest => blockCount b + blockCounts rest

end

/-- The numbers of sibling units, of which the first is `first`. -/
def siblingIds (first : Nat) : List Block → List UnitId
  | [] => []
  | b :: rest => ⟨first⟩ :: siblingIds (first + blockCount b) rest

mutual

/-- The units of a block tree that gets the numbers from `id` on. -/
def flatten (parent : Option UnitId) (id : Nat) : Block → List CodeUnit
  | b@⟨name, params, start, lineCount, code, functions⟩ =>
    { name, params, declared := b.declaredNames, start, lineCount, code, parent,
      children := siblingIds (id + 1) functions } ::
      flattenAll (some ⟨id⟩) (id + 1) functions

/-- The units of sibling block trees that get the numbers from `id` on. -/
def flattenAll (parent : Option UnitId) (id : Nat) : List Block → List CodeUnit
  | [] => []
  | b :: rest => flatten parent id b ++ flattenAll parent (id + blockCount b) rest

end

mutual

theorem flatten_length (parent : Option UnitId) (id : Nat) :
    ∀ b : Block, (flatten parent id b).length = blockCount b
  | ⟨_, _, _, _, _, functions⟩ => by
    simp only [flatten, blockCount, List.length_cons, flattenAll_length _ _ functions]
    omega

theorem flattenAll_length (parent : Option UnitId) (id : Nat) :
    ∀ bs : List Block, (flattenAll parent id bs).length = blockCounts bs
  | [] => rfl
  | b :: rest => by
    simp only [flattenAll, blockCounts, List.length_append, flatten_length _ _ b,
      flattenAll_length _ _ rest]

end

/-- A program that is ready to run. -/
structure Program where
  /-- The path under which it was loaded. -/
  url : String
  /-- The units; the module is the first one. -/
  units : List CodeUnit

namespace Program

/-- The program of a module. -/
def ofBlock (url : String) (block : Block) : Program := ⟨url, flatten none 0 block⟩

/-- The unit of a number. -/
def unit? (p : Program) (id : UnitId) : Option CodeUnit := p.units[id.number]?

/-- Whether a unit is a function of the name. -/
def isFunctionNamed (p : Program) (name : String) (id : UnitId) : Bool :=
  (p.unit? id).any fun unit => unit.name == some name

/-- The function that a name means inside a unit: a function declared directly in the unit, or else
what the name means in the unit around it. At most `depth` units are searched. -/
def lookupFrom (p : Program) (name : String) : (depth : Nat) → UnitId → Option UnitId
  | 0, _ => none
  | depth + 1, id =>
    match p.unit? id with
    | none => none
    | some unit =>
      match unit.children.find? (p.isFunctionNamed name) with
      | some found => some found
      | none =>
        match unit.parent with
        | some parent => lookupFrom p name depth parent
        | none => none

/-- The function that a name means inside a unit. No unit has more units around it than there are
units. -/
def lookupFunction (p : Program) (id : UnitId) (name : String) : Option UnitId :=
  lookupFrom p name p.units.length id

/-- How many instructions a unit has. -/
def codeLength (p : Program) (id : UnitId) : Nat :=
  match p.unit? id with
  | some unit => unit.code.length
  | none => 0

/-- The instruction at an offset of a unit. -/
def instruction? (p : Program) (id : UnitId) (offset : Nat) : Option Instruction :=
  (p.unit? id).bind fun unit => unit.code[offset]?

end Program

end ScriptDebugger.Machine
