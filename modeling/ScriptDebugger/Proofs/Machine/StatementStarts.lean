import ScriptDebugger.Debug.Breakpoints
import ScriptDebugger.Proofs.Machine.Places
/-!
# Starts of statements

Where the executable statements of a text start is told by the text alone: a reader who knows which
functions are open, and how many instructions each of them has so far, knows the unit and the offset
of the next statement. Units are numbered in the order of their `function` statements.

The compiler knows no numbers. It works on the innermost open block and hands a block that is closed
to the one around it, and only the finished tree is laid out as a list of units. Both come to the
same because a block that is closed goes behind all the functions that its parent has: the open
blocks, from the outside in, with the functions closed in them, always stand in the order in which
they were opened (`openedCodes`), and closing one does not move it.

## Main results

* `reading_apply` — what a reader knows is kept by every command.
* `startsIn_apply` — a command adds just the start of its statement.
* `mem_statementStarts_iff` — the starts that a reader tells are the places in the units of the
  program where a statement begins.
* `statementStarts_ordered` — they are told in the order of the text.
-/

namespace ScriptDebugger

/-! ## Reading a text -/

namespace Source

/-- What statements say, and where they stand. In a text that compiles, each says something. -/
def commands (statements : List Statement) : List (Location × Command) :=
  statements.filterMap fun s => (Command.ofStatement s).toOption.map (s.location, ·)

/-- How many instructions a statement makes in the function that it stands in. -/
def Command.size : Command → Nat
  | .assign _ _ _ => 2
  | .call _ _ | .defer _ _ | .print _ | .finish => 1
  | .function _ _ => 0

end Source

namespace Machine

open Debug (Candidate)
open Source (Block Command Instruction Nest Op Statement commands)

/-- A function whose `end` is not read yet, or the module. -/
structure OpenUnit where
  /-- Its unit. -/
  unit : UnitId
  /-- How many instructions its statements have made so far. -/
  size : Nat

/-- What is known behind some statements of a text. -/
structure Reading where
  /-- How many units were opened. -/
  opened : Nat
  /-- The innermost open one. -/
  inner : OpenUnit
  /-- The open ones around it, from the inside out. -/
  outer : List OpenUnit

namespace Reading

/-- Before the first statement, the module is open. -/
def initial : Reading := ⟨1, ⟨⟨0⟩, 0⟩, []⟩

/-- Behind one more statement: a `function` opens the next unit, and an `end` closes the innermost
one. -/
def next (r : Reading) : Command → Reading
  | .function _ _ => ⟨r.opened + 1, ⟨⟨r.opened⟩, 0⟩, r.inner :: r.outer⟩
  | .finish =>
    match r.outer with
    | [] => r
    | parent :: rest => ⟨r.opened, parent, rest⟩
  | command => { r with inner := { r.inner with size := r.inner.size + command.size } }

/-- The start of the next statement. Only the `function` statement is not executable. -/
def start? (r : Reading) (location : Location) : Command → Option Candidate
  | .function _ _ => none
  | _ => some ⟨r.inner.unit, r.inner.size, location⟩

/-- The starts of the executable statements that come next. -/
def starts (r : Reading) : List (Location × Command) → List Candidate
  | [] => []
  | (location, command) :: rest =>
    (r.start? location command).toList ++ (r.next command).starts rest

end Reading

/-- The starts of the executable statements of a text, in its order. -/
def statementStarts (source : String) : List Candidate :=
  Reading.initial.starts (commands (Statement.split source))

/-! ## The order of the text -/

theorem start?_location {r : Reading} {location : Location} {command : Command} {k : Candidate}
    (h : r.start? location command = some k) : k.location = location := by
  cases command with
  | function name params => cases h
  | _ =>
      obtain rfl := Option.some.inj h
      rfl

/-- Starts are told in the order of the statements, at most one for each. -/
theorem starts_sublist (r : Reading) (cs : List (Location × Command)) :
    ((r.starts cs).map (·.location)).Sublist (cs.map Prod.fst) := by
  induction cs generalizing r with
  | nil => exact List.Sublist.refl []
  | cons c rest ih =>
      obtain ⟨location, command⟩ := c
      rw [Reading.starts, List.map_append, List.map_cons]
      cases hstart : r.start? location command with
      | none => exact (ih (r.next command)).cons location
      | some k =>
          have hlocation : k.location = location := start?_location hstart
          simpa [hlocation] using ih (r.next command)

theorem commands_sublist (statements : List Statement) :
    ((commands statements).map Prod.fst).Sublist (statements.map (·.location)) := by
  induction statements with
  | nil => exact List.Sublist.refl []
  | cons s rest ih =>
      rw [commands, List.filterMap_cons]
      cases Command.ofStatement s with
      | error fault => exact ih.cons s.location
      | ok command => exact ih.cons_cons s.location

/-- The starts of a text stand in order. -/
theorem statementStarts_ordered (source : String) :
    (statementStarts source).Pairwise fun k k' => Location.Before k.location k'.location := by
  have hsplit := Statement.split_ordered source
  rw [← List.pairwise_map (f := fun s : Statement => s.location)] at hsplit
  have hstarts := (starts_sublist .initial _).trans (commands_sublist (Statement.split source))
  exact List.pairwise_map.1 (hsplit.sublist hstarts)

/-! ## The open blocks -/

/-- The codes of the open blocks and of the functions closed in them, in the order in which they
were opened. -/
def openedCodes (nest : Nest) : List (List Instruction) :=
  codesAll (nest.outer.reverse ++ [nest.inner])

/-- What a reader knows of a block in others, given from the inside out. -/
def openUnit (b : Block) (outer : List Block) : OpenUnit :=
  ⟨⟨(codesAll outer.reverse).length⟩, b.code.length⟩

/-- What a reader knows of blocks in each other, given from the inside out. -/
def openUnits : List Block → List OpenUnit
  | [] => []
  | b :: outer => openUnit b outer :: openUnits outer

/-- What a reader knows where the compiler has these blocks. -/
def reading (nest : Nest) : Reading :=
  ⟨(openedCodes nest).length, openUnit nest.inner nest.outer, openUnits nest.outer⟩

theorem openedCodes_eq (nest : Nest) :
    openedCodes nest = codesAll nest.outer.reverse ++
      nest.inner.code :: codesAll nest.inner.functions := by
  rw [openedCodes, codesAll_append, codesAll, codesAll, List.append_nil, codes_eq]

theorem openedCodes_emit (nest : Nest) (ops : List Op) (location : Location) :
    openedCodes (nest.emit ops location) = codesAll nest.outer.reverse ++
      (nest.inner.code ++ ops.map (⟨·, location⟩)) :: codesAll nest.inner.functions :=
  openedCodes_eq (nest.emit ops location)

/-- A function that is opened goes behind all others. -/
theorem openedCodes_function (nest : Nest) (name : String) (params : List String)
    (location : Location) :
    openedCodes ⟨Block.emptyFunction name params location, nest.inner :: nest.outer⟩ =
      openedCodes nest ++ [[]] := by
  rw [openedCodes, List.reverse_cons, codesAll_append]
  rfl

/-- A function that is closed stays where it is. -/
theorem openedCodes_close {nest next : Nest} {location : Location}
    (h : nest.close location = .ok next) :
    openedCodes next = openedCodes (nest.emit [.ret] location) ∧
      ∃ parent rest, nest.outer = parent :: rest ∧ next.inner.code = parent.code ∧
        next.outer = rest := by
  unfold Nest.close at h
  split at h
  · cases h
  · rename_i parent rest houter
    simp only at h
    split at h
    · cases h
    · obtain rfl := Except.ok.inj h
      refine ⟨?_, parent, rest, houter, rfl, rfl⟩
      rw [openedCodes_eq, openedCodes_emit, houter, List.reverse_cons, codesAll_append,
        codesAll_append, codesAll, codesAll, codesAll, codesAll, List.append_nil, List.append_nil,
        codes_eq parent, codes_eq, List.append_assoc]
      rfl

/-- The instructions of a command stand at its place. -/
theorem mem_openedCodes_apply {nest next : Nest} {location : Location} {command : Command}
    (h : nest.apply location command = .ok next) {code : List Instruction}
    (hcode : code ∈ openedCodes next) {i : Instruction} (hi : i ∈ code) :
    i.location = location ∨ ∃ old ∈ openedCodes nest, i ∈ old := by
  have emitted : ∀ ops, code ∈ openedCodes (nest.emit ops location) →
      i.location = location ∨ ∃ old ∈ openedCodes nest, i ∈ old := by
    intro ops hcode
    rw [openedCodes_emit] at hcode
    rw [openedCodes_eq]
    rcases List.mem_append.1 hcode with hcode | hcode
    · exact .inr ⟨code, List.mem_append_left _ hcode, hi⟩
    · rcases List.mem_cons.1 hcode with rfl | hcode
      · rcases List.mem_append.1 hi with hi | hi
        · exact .inr ⟨nest.inner.code, List.mem_append_right _ List.mem_cons_self, hi⟩
        · obtain ⟨op, -, rfl⟩ := List.mem_map.1 hi
          exact .inl rfl
      · exact .inr ⟨code, List.mem_append_right _ (List.mem_cons_of_mem _ hcode), hi⟩
  cases command with
  | function name params =>
      obtain rfl := Except.ok.inj h
      rw [openedCodes_function] at hcode
      rcases List.mem_append.1 hcode with hcode | hcode
      · exact .inr ⟨code, hcode, hi⟩
      · obtain rfl := List.mem_singleton.1 hcode
        cases hi
  | finish =>
      rw [(openedCodes_close h).1] at hcode
      exact emitted [.ret] hcode
  | _ =>
      obtain rfl := Except.ok.inj h
      exact emitted _ hcode

/-- What a reader knows is kept by every command. -/
theorem reading_apply {nest next : Nest} {location : Location} {command : Command}
    (h : nest.apply location command = .ok next) :
    (reading nest).next command = reading next := by
  have emitted : ∀ ops, nest.emit ops location = next →
      { reading nest with
        inner := { (reading nest).inner with
          size := (reading nest).inner.size + ops.length } } = reading next := by
    rintro ops rfl
    have hopened : (openedCodes (nest.emit ops location)).length = (openedCodes nest).length := by
      rw [openedCodes_emit, openedCodes_eq, List.length_append, List.length_append]
      rfl
    have hsize : (nest.emit ops location).inner.code.length =
        nest.inner.code.length + ops.length := by
      show (nest.inner.code ++ ops.map _).length = _
      rw [List.length_append, List.length_map]
    rw [reading, reading, hopened, openUnit, openUnit, hsize]
    rfl
  cases command with
  | assign binding name value =>
      exact emitted [.load value, .store binding name] (Except.ok.inj h)
  | call name args => exact emitted [.call name args] (Except.ok.inj h)
  | defer name args => exact emitted [.defer name args] (Except.ok.inj h)
  | print value => exact emitted [.print value] (Except.ok.inj h)
  | function name params =>
      obtain rfl := Except.ok.inj h
      have hunit : openUnit (Block.emptyFunction name params location)
          (nest.inner :: nest.outer) = ⟨⟨(openedCodes nest).length⟩, 0⟩ := by
        rw [openUnit, List.reverse_cons, ← openedCodes]
        rfl
      rw [reading, reading, openedCodes_function, List.length_append, hunit]
      rfl
  | finish =>
      obtain ⟨hcodes, parent, rest, houter, hcode, hrest⟩ := openedCodes_close h
      have hopened : (openedCodes next).length = (openedCodes nest).length := by
        rw [hcodes, openedCodes_emit, openedCodes_eq, List.length_append, List.length_append]
        rfl
      rw [reading, reading, hopened, houter, hrest, openUnit, openUnit, hcode]
      rfl

/-! ## Where statements begin -/

/-- A statement begins at the place in the codes of some units. -/
def StartsIn (cs : List (List Instruction)) (k : Candidate) : Prop :=
  ∃ code i, cs[k.unit.number]? = some code ∧ Begins none code k.offset i ∧
    i.location = k.location

/-- A statement that is added behind a code begins where the code ended. -/
theorem begins_append_iff {code : List Instruction} {op : Op} {more : List Op}
    {location : Location} (hnew : ∀ i ∈ code, i.location ≠ location) {n : Nat} {i : Instruction} :
    Begins none (code ++ (op :: more).map (⟨·, location⟩)) n i ↔
      Begins none code n i ∨ n = code.length ∧ i = ⟨op, location⟩ := by
  have hbehind : ∀ {m : Nat} {j : Instruction},
      ((op :: more).map (Instruction.mk · location))[m]? = some j → j.location = location := by
    intro m j hj
    obtain ⟨o, -, rfl⟩ := List.mem_map.1 (List.mem_of_getElem? hj)
    rfl
  constructor
  · rintro ⟨hi, hfirst, hlater⟩
    by_cases hlt : n < code.length
    · rw [List.getElem?_append_left hlt] at hi
      refine .inl ⟨hi, hfirst, fun first j hn hj => hlater first j hn ?_⟩
      rw [List.getElem?_append_left (by omega)]
      exact hj
    · rw [List.getElem?_append_right (by omega)] at hi
      by_cases hend : n = code.length
      · subst hend
        rw [Nat.sub_self] at hi
        exact .inr ⟨rfl, (Option.some.inj hi).symm⟩
      · -- an instruction of the statement stands before this one
        have hbefore : (code ++ (op :: more).map (Instruction.mk · location))[n - 1]? =
            ((op :: more).map (Instruction.mk · location))[n - 1 - code.length]? :=
          List.getElem?_append_right (by omega)
        have hlength := (List.getElem?_eq_some_iff.1 hi).1
        obtain ⟨j, hj⟩ : ∃ j, ((op :: more).map (Instruction.mk · location))[
            n - 1 - code.length]? = some j :=
          ⟨_, List.getElem?_eq_getElem (by omega)⟩
        have hapart := hlater (n - 1) j (by omega) (hbefore.trans hj)
        exact absurd ((hbehind hj).trans (hbehind hi).symm) hapart
  · rintro (⟨hi, hfirst, hlater⟩ | ⟨rfl, rfl⟩)
    · have hlt := (List.getElem?_eq_some_iff.1 hi).1
      refine ⟨by rwa [List.getElem?_append_left hlt], hfirst, fun first j hn hj => ?_⟩
      rw [List.getElem?_append_left (by omega)] at hj
      exact hlater first j hn hj
    · refine ⟨by rw [List.getElem?_append_right (Nat.le_refl _), Nat.sub_self]; rfl, nofun, ?_⟩
      intro first j hn hj
      rw [List.getElem?_append_left (by omega)] at hj
      exact hnew j (List.mem_of_getElem? hj)

section

variable {front back : List (List Instruction)} {code : List Instruction} {k : Candidate}

/-- The starts in one of the units. -/
theorem startsIn_middle_self (hunit : k.unit.number = front.length) :
    StartsIn (front ++ code :: back) k ↔
      ∃ i, Begins none code k.offset i ∧ i.location = k.location := by
  have hcode : (front ++ code :: back)[k.unit.number]? = some code := by
    rw [hunit, List.getElem?_append_right (Nat.le_refl _), Nat.sub_self, List.getElem?_cons_zero]
  constructor
  · rintro ⟨other, i, hother, hbegins, hplace⟩
    obtain rfl : code = other := Option.some.inj (hcode.symm.trans hother)
    exact ⟨i, hbegins, hplace⟩
  · rintro ⟨i, hbegins, hplace⟩
    exact ⟨code, i, hcode, hbegins, hplace⟩

/-- Those in the other units do not depend on its code. -/
theorem startsIn_middle_ne (hunit : k.unit.number ≠ front.length) (code' : List Instruction) :
    StartsIn (front ++ code :: back) k ↔ StartsIn (front ++ code' :: back) k := by
  have hsame : (front ++ code :: back)[k.unit.number]? =
      (front ++ code' :: back)[k.unit.number]? := by
    by_cases hlt : k.unit.number < front.length
    · rw [List.getElem?_append_left hlt, List.getElem?_append_left hlt]
    · rw [List.getElem?_append_right (by omega), List.getElem?_append_right (by omega)]
      have hbehind : k.unit.number - front.length ≠ 0 := by omega
      rw [List.getElem?_cons, List.getElem?_cons, if_neg hbehind, if_neg hbehind]
  rw [StartsIn, StartsIn, hsame]

end

/-- A statement that is added to a unit adds its start. -/
theorem startsIn_emit {nest : Nest} {op : Op} {more : List Op} {location : Location}
    (hnew : ∀ i ∈ nest.inner.code, i.location ≠ location) {k : Candidate} :
    StartsIn (openedCodes (nest.emit (op :: more) location)) k ↔
      StartsIn (openedCodes nest) k ∨
        (⟨(reading nest).inner.unit, (reading nest).inner.size, location⟩ : Candidate) = k := by
  rw [openedCodes_emit, openedCodes_eq]
  by_cases hunit : k.unit.number = (codesAll nest.outer.reverse).length
  · rw [startsIn_middle_self hunit, startsIn_middle_self hunit]
    simp only [begins_append_iff hnew]
    obtain ⟨⟨number⟩, offset, place⟩ := k
    obtain rfl := hunit
    constructor
    · rintro ⟨i, hbegins | ⟨rfl, rfl⟩, rfl⟩
      · exact .inl ⟨i, hbegins, rfl⟩
      · exact .inr rfl
    · rintro (⟨i, hbegins, rfl⟩ | hsame)
      · exact ⟨i, .inl hbegins, rfl⟩
      · obtain ⟨-, rfl, rfl⟩ := Candidate.mk.inj hsame
        exact ⟨⟨op, location⟩, .inr ⟨rfl, rfl⟩, rfl⟩
  · rw [startsIn_middle_ne hunit nest.inner.code]
    refine (or_iff_left ?_).symm
    rintro rfl
    exact hunit rfl

/-- A unit without statements has no start. -/
theorem startsIn_opened {cs : List (List Instruction)} {k : Candidate} :
    StartsIn (cs ++ [[]]) k ↔ StartsIn cs k := by
  constructor
  · rintro ⟨code, i, hcode, hbegins, hplace⟩
    by_cases hlt : k.unit.number < cs.length
    · rw [List.getElem?_append_left hlt] at hcode
      exact ⟨code, i, hcode, hbegins, hplace⟩
    · rw [List.getElem?_append_right (by omega)] at hcode
      obtain rfl := List.mem_singleton.1 (List.mem_of_getElem? hcode)
      cases hbegins.there
  · rintro ⟨code, i, hcode, hbegins, hplace⟩
    have hlt := (List.getElem?_eq_some_iff.1 hcode).1
    exact ⟨code, i, by rwa [List.getElem?_append_left hlt], hbegins, hplace⟩

/-- A command adds just the start of its statement. -/
theorem startsIn_apply {nest next : Nest} {location : Location} {command : Command}
    (hnew : ∀ code ∈ openedCodes nest, ∀ i ∈ code, i.location ≠ location)
    (h : nest.apply location command = .ok next) (k : Candidate) :
    StartsIn (openedCodes next) k ↔
      StartsIn (openedCodes nest) k ∨ (reading nest).start? location command = some k := by
  have hinner : ∀ i ∈ nest.inner.code, i.location ≠ location := by
    refine hnew nest.inner.code ?_
    rw [openedCodes_eq]
    exact List.mem_append_right _ List.mem_cons_self
  cases command with
  | function name params =>
      obtain rfl := Except.ok.inj h
      rw [openedCodes_function, startsIn_opened]
      exact (or_iff_left nofun).symm
  | finish =>
      obtain ⟨hcodes, -⟩ := openedCodes_close h
      rw [hcodes, startsIn_emit hinner]
      exact or_congr_right Option.some_inj.symm
  | _ =>
      obtain rfl := Except.ok.inj h
      rw [startsIn_emit hinner]
      exact or_congr_right Option.some_inj.symm

/-! ## Texts that compile -/

/-- Statements that stand in order add just their starts. -/
theorem startsIn_addAll {nest next : Nest} {statements : List Statement}
    (hordered : statements.Pairwise fun a b => Location.Before a.location b.location)
    (hbefore : ∀ code ∈ openedCodes nest, ∀ i ∈ code, ∀ s ∈ statements,
      Location.Before i.location s.location)
    (h : nest.addAll statements = .ok next) (k : Candidate) :
    StartsIn (openedCodes next) k ↔
      StartsIn (openedCodes nest) k ∨ k ∈ (reading nest).starts (commands statements) := by
  -- the codes have only places before the statements that are left, so the next one begins anew
  induction statements generalizing nest with
  | nil =>
      obtain rfl := Except.ok.inj h
      exact (or_iff_left List.not_mem_nil).symm
  | cons s rest ih =>
      obtain ⟨hfirst, hrest⟩ := List.pairwise_cons.1 hordered
      obtain ⟨command, middle, hcommand, happly, h⟩ := of_addAll_cons h
      have hplaces : ∀ code ∈ openedCodes middle, ∀ i ∈ code, ∀ t ∈ rest,
          Location.Before i.location t.location := by
        intro code hcode i hi t ht
        rcases mem_openedCodes_apply happly hcode hi with hplace | ⟨old, hold, hi⟩
        · rw [hplace]
          exact hfirst t ht
        · exact hbefore old hold i hi t (List.mem_cons_of_mem s ht)
      have hmiddle := startsIn_apply
        (fun code hcode i hi => (hbefore code hcode i hi s List.mem_cons_self).ne) happly k
      have hstarts : (reading nest).starts (commands (s :: rest)) =
          ((reading nest).start? s.location command).toList ++
            (reading middle).starts (commands rest) := by
        rw [commands, List.filterMap_cons, hcommand, ← reading_apply happly]
        rfl
      rw [ih hrest hplaces h, hmiddle, hstarts, List.mem_append, Option.mem_toList, or_assoc]

/-- The starts that a reader tells are the places in the blocks of a text that compiles where a
statement begins. -/
theorem startsIn_codes_iff {source : String} {block : Block}
    (h : Source.compile source = .ok block) (k : Candidate) :
    StartsIn (codes block) k ↔ k ∈ statementStarts source := by
  have hnothing : ¬StartsIn ([] ++ [[]]) k := by
    intro hstarts
    obtain ⟨code, i, hcode, -⟩ := startsIn_opened.1 hstarts
    cases hcode
  have hstarts := startsIn_addAll (Statement.split_ordered source)
    (by
      intro code hcode i hi
      obtain rfl : code = [] := List.mem_singleton.1 hcode
      cases hi) (of_compile h) k
  have hcodes : openedCodes ⟨block, []⟩ = codes block := by
    rw [openedCodes, List.reverse_nil, List.nil_append, codesAll, codesAll, List.append_nil]
  rw [← hcodes, hstarts]
  exact or_iff_right hnothing

/-- The starts that a reader tells are the places in the units of the program where a statement
begins. -/
theorem mem_statementStarts_iff {url source : String} {p : Program}
    (h : Program.ofSource url source = .ok p) {k : Candidate} :
    k ∈ statementStarts source ↔ ∃ unit i, p.unit? k.unit = some unit ∧
      Begins none unit.code k.offset i ∧ i.location = k.location := by
  unfold Program.ofSource at h
  split at h
  · rename_i block hblock
    obtain rfl := Except.ok.inj h
    rw [← startsIn_codes_iff hblock, ← map_code_flatten none 0 block, StartsIn]
    simp only [List.getElem?_map, Option.map_eq_some_iff]
    constructor
    · rintro ⟨code, i, ⟨unit, hunit, rfl⟩, hbegins, hplace⟩
      exact ⟨unit, i, hunit, hbegins, hplace⟩
    · rintro ⟨unit, i, hunit, hbegins, hplace⟩
      exact ⟨unit.code, i, ⟨unit, hunit, rfl⟩, hbegins, hplace⟩
  · cases h

theorem Program.url_of_ofSource {url source : String} {p : Program}
    (h : Program.ofSource url source = .ok p) : p.url = url := by
  unfold Program.ofSource at h
  split at h
  · obtain rfl := Except.ok.inj h
    rfl
  · cases h

end Machine

end ScriptDebugger
