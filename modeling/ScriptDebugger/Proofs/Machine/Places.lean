import ScriptDebugger.Machine.Inspect
import ScriptDebugger.Proofs.Source.Order
/-!
# Places of statements

In a compiled program every statement has its own place, and all its instructions stand there: the
two of an assignment, one behind the other, or the single one of any other statement. A breakpoint
can only be set where a statement starts, never between the two instructions of an assignment.

## Main results

* `of_addAll_cons`, `of_compile` — a text that compiles is carried out command by command.
* `placed_of_ofSource` — a compiled program has its statements at places of their own.
* `Placed.location_eq_iff` — two instructions of a unit have one place just if they are of one
  statement.
* `Placed.not_store_of_mem_statementOffsets` — no breakpoint is set between the instructions of an
  assignment.
-/

namespace ScriptDebugger

/-- Whether an operation is the second one of an assignment. -/
def Source.Op.isStore : Source.Op → Bool
  | .store _ _ => true
  | _ => false

namespace Machine

open Source (Op Instruction Block Nest Statement Command)

/-! ## The code of a block tree -/

mutual

/-- The code of every block of a tree. -/
def codes : Block → List (List Instruction)
  | ⟨_, _, _, _, code, functions⟩ => code :: codesAll functions

/-- The code of every block of several trees. -/
def codesAll : List Block → List (List Instruction)
  | [] => []
  | b :: rest => codes b ++ codesAll rest

end

mutual

theorem map_code_flatten (parent : Option UnitId) (id : Nat) :
    ∀ b : Block, (flatten parent id b).map CodeUnit.code = codes b
  | ⟨_, _, _, _, _, functions⟩ => by
    rw [flatten, codes, List.map_cons, map_code_flattenAll _ _ functions]

theorem map_code_flattenAll (parent : Option UnitId) (id : Nat) :
    ∀ bs : List Block, (flattenAll parent id bs).map CodeUnit.code = codesAll bs
  | [] => rfl
  | b :: rest => by
    rw [flattenAll, codesAll, List.map_append, map_code_flatten _ _ b,
      map_code_flattenAll _ _ rest]

end

theorem codesAll_append (front back : List Block) :
    codesAll (front ++ back) = codesAll front ++ codesAll back := by
  induction front with
  | nil => rfl
  | cons b rest ih => rw [List.cons_append, codesAll, codesAll, ih, List.append_assoc]

theorem codes_eq (b : Block) : codes b = b.code :: codesAll b.functions := by
  cases b
  rw [codes]

/-- The code of every open block and of the functions closed in it. -/
def nestCodes (nest : Nest) : List (List Instruction) := codes nest.inner ++ codesAll nest.outer

/-- A function that is closed moves behind the functions of the block around it. -/
theorem codes_close_perm {α : Type} (outer inner : α) (before functions rest : List α) :
    ((outer :: (before ++ (inner :: functions ++ []))) ++ rest).Perm
      (inner :: (functions ++ ((outer :: before) ++ rest))) := by
  have hmiddle : ((outer :: before) ++ inner :: (functions ++ rest)).Perm
      (inner :: ((outer :: before) ++ (functions ++ rest))) := List.perm_middle
  have hswap : ((outer :: before) ++ (functions ++ rest)).Perm
      (functions ++ ((outer :: before) ++ rest)) := List.perm_append_comm_assoc _ _ _
  have hperm := hmiddle.trans (hswap.cons inner)
  simpa [List.append_assoc] using hperm

/-! ## What compiling comes to -/

/-- Taking statements means carrying out one command after the other. -/
theorem of_addAll_cons {nest next : Nest} {s : Statement} {rest : List Statement}
    (h : nest.addAll (s :: rest) = .ok next) :
    ∃ command middle, Command.ofStatement s = .ok command ∧
      nest.apply s.location command = .ok middle ∧ middle.addAll rest = .ok next := by
  rw [Nest.addAll, Nest.add] at h
  cases hcommand : Command.ofStatement s with
  | error fault =>
      rw [hcommand] at h
      cases h
  | ok command =>
      rw [hcommand] at h
      change (nest.apply s.location command).bind (Nest.addAll · rest) = .ok next at h
      cases happly : nest.apply s.location command with
      | error fault =>
          rw [happly] at h
          cases h
      | ok middle =>
          rw [happly] at h
          exact ⟨command, middle, rfl, happly, h⟩

/-- A text compiles to the block that is left open when all its statements are taken. -/
theorem of_compile {source : String} {block : Block} (h : Source.compile source = .ok block) :
    Nest.addAll ⟨Block.emptyModule (Text.lines source).length, []⟩ (Statement.split source) =
      .ok ⟨block, []⟩ := by
  unfold Source.compile at h
  cases hadded : Nest.addAll ⟨Block.emptyModule (Text.lines source).length, []⟩
      (Statement.split source) with
  | error fault =>
      rw [hadded] at h
      cases h
  | ok nest =>
      rw [hadded] at h
      change nest.finish = .ok block at h
      unfold Nest.finish at h
      split at h
      · rename_i houter
        obtain rfl := Except.ok.inj h
        rw [← houter]
      · cases h

/-! ## Statements are whole -/

/-- The instructions of one statement. -/
def WholeStatement (ops : List Op) : Prop :=
  (∃ value binding name, ops = [.load value, .store binding name]) ∨
    ∃ op, op.isStore = false ∧ ops = [op]

/-- A statement adds its instructions to one code, or opens a function. -/
theorem nestCodes_apply {nest next : Nest} {location : Location} {command : Command}
    (h : nest.apply location command = .ok next) :
    (nestCodes next).Perm ([] :: nestCodes nest) ∨
      ∃ code others ops, WholeStatement ops ∧ (nestCodes nest).Perm (code :: others) ∧
        (nestCodes next).Perm ((code ++ ops.map (⟨·, location⟩)) :: others) := by
  have emitted : ∀ ops, WholeStatement ops → nest.emit ops location = next →
      ∃ code others ops, WholeStatement ops ∧ (nestCodes nest).Perm (code :: others) ∧
        (nestCodes next).Perm ((code ++ ops.map (⟨·, location⟩)) :: others) := by
    rintro ops hops rfl
    refine ⟨nest.inner.code, codesAll nest.inner.functions ++ codesAll nest.outer, ops, hops, ?_,
      ?_⟩
    · rw [nestCodes, codes_eq]
      exact List.Perm.refl _
    · rw [nestCodes, codes_eq]
      exact List.Perm.refl _
  cases command with
  | assign binding name value =>
      exact Or.inr (emitted _ (Or.inl ⟨value, binding, name, rfl⟩) (Except.ok.inj h))
  | call name args =>
      exact Or.inr (emitted _ (Or.inr ⟨.call name args, rfl, rfl⟩) (Except.ok.inj h))
  | defer name args =>
      exact Or.inr (emitted _ (Or.inr ⟨.defer name args, rfl, rfl⟩) (Except.ok.inj h))
  | print value => exact Or.inr (emitted _ (Or.inr ⟨.print value, rfl, rfl⟩) (Except.ok.inj h))
  | function name params =>
      obtain rfl := Except.ok.inj h
      refine Or.inl ?_
      rw [nestCodes, nestCodes, codes_eq, codesAll]
      exact List.Perm.refl _
  | finish =>
      refine Or.inr ?_
      simp only [Nest.apply, Nest.close] at h
      split at h
      · cases h
      · rename_i parent rest houter
        split at h
        · cases h
        · obtain rfl := Except.ok.inj h
          refine ⟨nest.inner.code,
            codesAll nest.inner.functions ++ (codes parent ++ codesAll rest), [.ret],
            Or.inr ⟨.ret, rfl, rfl⟩, ?_, ?_⟩
          · rw [nestCodes, codes_eq nest.inner, houter, codesAll]
            exact List.Perm.refl _
          · rw [nestCodes, codes_eq, codesAll_append, codesAll, codesAll, codes_eq, codes_eq parent]
            exact codes_close_perm _ _ _ _ _

/-- Two instructions that both begin a statement stand at different places. -/
def Apart (i j : Instruction) : Prop :=
  i.op.isStore = false → j.op.isStore = false → i.location ≠ j.location

/-- The second instruction of an assignment stands behind the first one, at the same place. -/
def Paired (code : List Instruction) : Prop :=
  ∀ offset i, code[offset]? = some i → i.op.isStore = true →
    ∃ first j value, offset = first + 1 ∧ code[first]? = some j ∧ j.op = .load value ∧
      j.location = i.location

theorem Apart.symm {i j : Instruction} (h : Apart i j) : Apart j i :=
  fun hj hi => (h hi hj).symm

theorem Paired.append {code code' : List Instruction} (h : Paired code) (h' : Paired code') :
    Paired (code ++ code') := by
  intro offset i hi hstore
  rcases Nat.lt_or_ge offset code.length with hlt | hge
  · rw [List.getElem?_append_left hlt] at hi
    obtain ⟨first, j, value, rfl, hj, hload, hsame⟩ := h offset i hi hstore
    refine ⟨first, j, value, rfl, ?_, hload, hsame⟩
    rwa [List.getElem?_append_left (by omega)]
  · rw [List.getElem?_append_right hge] at hi
    obtain ⟨first, j, value, hfirst, hj, hload, hsame⟩ := h' _ i hi hstore
    refine ⟨code.length + first, j, value, by omega, ?_, hload, hsame⟩
    rwa [List.getElem?_append_right (by omega), Nat.add_sub_cancel_left]

theorem WholeStatement.paired {ops : List Op} (h : WholeStatement ops) (location : Location) :
    Paired (ops.map (⟨·, location⟩)) := by
  intro offset i hi hstore
  rcases h with ⟨value, binding, name, rfl⟩ | ⟨op, hop, rfl⟩
  · match offset, hi with
    | 0, hi =>
        obtain rfl := Option.some.inj hi
        cases hstore
    | 1, hi =>
        obtain rfl := Option.some.inj hi
        exact ⟨0, ⟨.load value, location⟩, value, rfl, rfl, rfl, rfl⟩
  · match offset, hi with
    | 0, hi =>
        obtain rfl := Option.some.inj hi
        rw [hop] at hstore
        cases hstore

theorem WholeStatement.apart {ops : List Op} (h : WholeStatement ops) (location : Location) :
    (ops.map (Instruction.mk · location)).Pairwise Apart := by
  rcases h with ⟨value, binding, name, rfl⟩ | ⟨op, -, rfl⟩
  · refine List.pairwise_pair.2 fun _ hstore => ?_
    cases hstore
  · exact List.pairwise_singleton _ _

/-- Codes whose statements are whole and have places of their own, among the ones given. -/
structure WellPlaced (cs : List (List Instruction)) (places : List Location) : Prop where
  apart : cs.flatten.Pairwise Apart
  paired : ∀ code ∈ cs, Paired code
  places : ∀ code ∈ cs, ∀ i ∈ code, i.location ∈ places

namespace WellPlaced

variable {cs ds : List (List Instruction)} {places : List Location}

theorem perm (h : WellPlaced cs places) (hperm : cs.Perm ds) : WellPlaced ds places where
  apart := (hperm.flatten.pairwise_iff Apart.symm).1 h.apart
  paired code hcode := h.paired code (hperm.mem_iff.2 hcode)
  places code hcode := h.places code (hperm.mem_iff.2 hcode)

theorem mono (h : WellPlaced cs places) {more : List Location} (hsub : places ⊆ more) :
    WellPlaced cs more :=
  ⟨h.apart, h.paired, fun code hcode i hi => hsub (h.places code hcode i hi)⟩

/-- A function is opened. -/
theorem opened (h : WellPlaced cs places) : WellPlaced ([] :: cs) places where
  apart := h.apart
  paired code hcode := by
    rcases List.mem_cons.1 hcode with rfl | hcode
    · intro offset i hi
      simp at hi
    · exact h.paired code hcode
  places code hcode := by
    rcases List.mem_cons.1 hcode with rfl | hcode
    · intro i hi
      cases hi
    · exact h.places code hcode

/-- A statement at a new place. -/
theorem added {code : List Instruction} {ops : List Op} {location : Location}
    (h : WellPlaced (code :: cs) places) (hwhole : WholeStatement ops)
    (hnew : location ∉ places) :
    WellPlaced ((code ++ ops.map (⟨·, location⟩)) :: cs) (location :: places) where
  apart := by
    have hold := h.apart
    rw [List.flatten_cons] at hold
    rw [List.flatten_cons, List.append_assoc]
    have hperm : (ops.map (Instruction.mk · location) ++ (code ++ cs.flatten)).Perm
        (code ++ (ops.map (Instruction.mk · location) ++ cs.flatten)) :=
      List.perm_append_comm_assoc _ _ _
    refine (hperm.pairwise_iff Apart.symm).1
      (List.pairwise_append.2 ⟨hwhole.apart location, hold, ?_⟩)
    intro i hi j hj _ _ heq
    obtain ⟨op, -, rfl⟩ := List.mem_map.1 hi
    have hplace : j.location ∈ places := by
      rcases List.mem_append.1 hj with hj | hj
      · exact h.places code List.mem_cons_self j hj
      · obtain ⟨other, hother, hj⟩ := List.mem_flatten.1 hj
        exact h.places other (List.mem_cons_of_mem code hother) j hj
    rw [← heq] at hplace
    exact hnew hplace
  paired other hother := by
    rcases List.mem_cons.1 hother with rfl | hother
    · exact (h.paired code List.mem_cons_self).append (hwhole.paired location)
    · exact h.paired other (List.mem_cons_of_mem code hother)
  places other hother i hi := by
    rcases List.mem_cons.1 hother with rfl | hother
    · rcases List.mem_append.1 hi with hi | hi
      · exact List.mem_cons_of_mem location (h.places code List.mem_cons_self i hi)
      · obtain ⟨op, -, rfl⟩ := List.mem_map.1 hi
        exact List.mem_cons_self
    · exact List.mem_cons_of_mem location
        (h.places other (List.mem_cons_of_mem code hother) i hi)

/-- One command more. -/
theorem apply {nest next : Nest} {location : Location} {command : Command}
    (h : WellPlaced (nestCodes nest) places) (hnew : location ∉ places)
    (hnext : nest.apply location command = .ok next) :
    WellPlaced (nestCodes next) (location :: places) := by
  rcases nestCodes_apply hnext with hopened | ⟨code, others, ops, hwhole, hbefore, hafter⟩
  · exact (h.opened.mono (List.subset_cons_self _ _)).perm hopened.symm
  · exact ((h.perm hbefore).added hwhole hnew).perm hafter.symm

/-- Statements that stand in order. -/
theorem addAll {nest next : Nest} {statements : List Statement}
    (h : WellPlaced (nestCodes nest) places)
    (hordered : statements.Pairwise (fun a b => Location.Before a.location b.location))
    (hbefore : ∀ place ∈ places, ∀ s ∈ statements, Location.Before place s.location)
    (hnext : nest.addAll statements = .ok next) : ∃ all, WellPlaced (nestCodes next) all := by
  induction statements generalizing nest places with
  | nil =>
      obtain rfl := Except.ok.inj hnext
      exact ⟨places, h⟩
  | cons s rest ih =>
      obtain ⟨hfirst, hrest⟩ := List.pairwise_cons.1 hordered
      obtain ⟨command, middle, -, happly, hnext⟩ := of_addAll_cons hnext
      have hnew : s.location ∉ places := fun hmem => (hbefore _ hmem s List.mem_cons_self).ne rfl
      refine ih (h.apply hnew happly) hrest ?_ hnext
      intro place hplace other hother
      rcases List.mem_cons.1 hplace with rfl | hplace
      · exact hfirst other hother
      · exact hbefore place hplace other (List.mem_cons_of_mem s hother)

end WellPlaced

/-- The code of a compiled text. -/
theorem wellPlaced_of_compile {source : String} {block : Block}
    (h : Source.compile source = .ok block) : ∃ places, WellPlaced (codes block) places := by
  have hstart : WellPlaced
      (nestCodes ⟨Block.emptyModule (Text.lines source).length, []⟩) [] := by
    show WellPlaced [[]] []
    refine ⟨List.Pairwise.nil, ?_, ?_⟩
    · intro code hcode
      obtain rfl := List.mem_singleton.1 hcode
      intro offset i hi
      simp at hi
    · intro code hcode i hi
      obtain rfl := List.mem_singleton.1 hcode
      cases hi
  obtain ⟨places, hplaced⟩ := hstart.addAll (Statement.split_ordered source)
    (fun place hplace => absurd hplace List.not_mem_nil) (of_compile h)
  rw [nestCodes, codesAll, List.append_nil] at hplaced
  exact ⟨places, hplaced⟩

/-! ## Programs -/

/-- A program whose statements have places of their own. -/
structure Program.Placed (p : Program) : Prop where
  apart : ∀ unit offset i unit' offset' i', p.instruction? unit offset = some i →
    p.instruction? unit' offset' = some i' → i.op.isStore = false → i'.op.isStore = false →
    i.location = i'.location → unit = unit' ∧ offset = offset'
  paired : ∀ unit offset i, p.instruction? unit offset = some i → i.op.isStore = true →
    ∃ first j value, offset = first + 1 ∧ p.instruction? unit first = some j ∧
      j.op = .load value ∧ j.location = i.location
  module : (p.unit? ⟨0⟩).isSome

/-- Two entries at different places of a list are in the relation of the list. -/
theorem rel_of_pairwise {α : Type} {R : α → α → Prop} {l : List α} {a b : Nat} {x y : α}
    (hsymm : ∀ {x y}, R x y → R y x) (h : l.Pairwise R) (hx : l[a]? = some x)
    (hy : l[b]? = some y) (hne : a ≠ b) : R x y := by
  obtain ⟨ha, rfl⟩ := List.getElem?_eq_some_iff.1 hx
  obtain ⟨hb, rfl⟩ := List.getElem?_eq_some_iff.1 hy
  rcases Nat.lt_or_gt_of_ne hne with hlt | hgt
  · exact List.pairwise_iff_getElem.1 h a b ha hb hlt
  · exact hsymm (List.pairwise_iff_getElem.1 h b a hb ha hgt)

/-- The code that an instruction stands in. -/
theorem code_of_instruction? {p : Program} {unit : UnitId} {offset : Nat} {i : Instruction}
    (h : p.instruction? unit offset = some i) :
    ∃ code, (p.units.map CodeUnit.code)[unit.number]? = some code ∧ code[offset]? = some i := by
  obtain ⟨u, hu, hi⟩ := Option.bind_eq_some_iff.1 h
  exact ⟨u.code, by rw [List.getElem?_map, show p.units[unit.number]? = some u from hu]; rfl, hi⟩

theorem instruction?_of_code {p : Program} {unit : UnitId} {offset : Nat}
    {code : List Instruction} (h : (p.units.map CodeUnit.code)[unit.number]? = some code) :
    p.instruction? unit offset = code[offset]? := by
  rw [List.getElem?_map] at h
  obtain ⟨u, hu, rfl⟩ := Option.map_eq_some_iff.1 h
  rw [Program.instruction?, Program.unit?, hu]
  rfl

theorem WellPlaced.program {p : Program} {places : List Location}
    (h : WellPlaced (p.units.map CodeUnit.code) places) (hmodule : (p.unit? ⟨0⟩).isSome) :
    p.Placed where
  apart := by
    intro unit offset i unit' offset' i' hi hi' hop hop' hsame
    obtain ⟨code, hcode, hat⟩ := code_of_instruction? hi
    obtain ⟨code', hcode', hat'⟩ := code_of_instruction? hi'
    obtain ⟨hinside, hacross⟩ := List.pairwise_flatten.1 h.apart
    by_cases hunit : unit.number = unit'.number
    · rw [← hunit] at hcode'
      obtain rfl : code = code' := Option.some.inj (hcode.symm.trans hcode')
      refine ⟨congrArg UnitId.mk hunit, ?_⟩
      refine Classical.byContradiction fun hne => ?_
      have hpairwise := hinside code (List.mem_of_getElem? hcode)
      exact rel_of_pairwise Apart.symm hpairwise hat hat' hne hop hop' hsame
    · have hcodes : ∀ x ∈ code, ∀ y ∈ code', Apart x y :=
        rel_of_pairwise (R := fun l l' => ∀ x ∈ l, ∀ y ∈ l', Apart x y)
          (fun hxy y hy x hx => (hxy x hx y hy).symm) hacross hcode hcode' hunit
      exact absurd hsame
        (hcodes i (List.mem_of_getElem? hat) i' (List.mem_of_getElem? hat') hop hop')
  paired := by
    intro unit offset i hi hstore
    obtain ⟨code, hcode, hat⟩ := code_of_instruction? hi
    obtain ⟨first, j, value, hoffset, hj, hload, hsame⟩ :=
      h.paired code (List.mem_of_getElem? hcode) offset i hat hstore
    exact ⟨first, j, value, hoffset, (instruction?_of_code hcode).trans hj, hload, hsame⟩
  module := hmodule

/-- A compiled program has its statements at places of their own. -/
theorem placed_of_ofSource {url source : String} {p : Program}
    (h : Program.ofSource url source = .ok p) : p.Placed := by
  unfold Program.ofSource at h
  split at h
  · rename_i block hblock
    obtain rfl := Except.ok.inj h
    obtain ⟨places, hplaced⟩ := wellPlaced_of_compile hblock
    rw [← map_code_flatten none 0 block] at hplaced
    refine WellPlaced.program (p := Program.ofBlock url block) hplaced ?_
    have hlength : 0 < (flatten none 0 block).length := by
      rw [flatten_length]
      cases block
      rw [blockCount]
      omega
    exact Option.isSome_iff_exists.2 ⟨_, List.getElem?_eq_getElem hlength⟩
  · cases h

namespace Program

/-- The offset at which the statement of an instruction starts. -/
def statementStart (p : Program) (unit : UnitId) (offset : Nat) : Nat :=
  if (p.instruction? unit offset).any (·.op.isStore) then offset - 1 else offset

namespace Placed

variable {p : Program}

/-- A statement starts with an instruction at its place that is not the second one of an
assignment. -/
theorem statementStart_spec (h : p.Placed) {unit : UnitId} {offset : Nat} {i : Instruction}
    (hi : p.instruction? unit offset = some i) :
    ∃ j, p.instruction? unit (p.statementStart unit offset) = some j ∧ j.op.isStore = false ∧
      j.location = i.location := by
  rw [statementStart, hi, Option.any_some]
  cases hstore : i.op.isStore with
  | false => exact ⟨i, hi, hstore, rfl⟩
  | true =>
      obtain ⟨first, j, value, rfl, hj, hload, hsame⟩ := h.paired unit offset i hi hstore
      refine ⟨j, hj, ?_, hsame⟩
      rw [hload]
      rfl

/-- Two instructions have one place just if they are of one statement. -/
theorem location_eq_iff (h : p.Placed) {unit unit' : UnitId} {offset offset' : Nat}
    {i i' : Instruction} (hi : p.instruction? unit offset = some i)
    (hi' : p.instruction? unit' offset' = some i') :
    i.location = i'.location ↔
      unit = unit' ∧ p.statementStart unit offset = p.statementStart unit' offset' := by
  obtain ⟨j, hj, hop, hplace⟩ := h.statementStart_spec hi
  obtain ⟨j', hj', hop', hplace'⟩ := h.statementStart_spec hi'
  constructor
  · intro hsame
    exact h.apart _ _ j _ _ j' hj hj' hop hop' (hplace.trans (hsame.trans hplace'.symm))
  · rintro ⟨rfl, hstart⟩
    rw [hstart] at hj
    obtain rfl : j = j' := Option.some.inj (hj.symm.trans hj')
    exact hplace.symm.trans hplace'

end Placed

end Program

/-- Whether an instruction of a code begins a statement: the one before it stands elsewhere. -/
structure Begins (previous : Option Location) (code : List Instruction) (k : Nat)
    (i : Instruction) : Prop where
  there : code[k]? = some i
  first : k = 0 → previous ≠ some i.location
  later : ∀ first j, k = first + 1 → code[first]? = some j → j.location ≠ i.location

/-- Behind the first instruction, statements begin where they do behind its location. -/
theorem begins_cons_succ {previous : Option Location} {first i : Instruction}
    {code : List Instruction} {k : Nat} :
    Begins previous (first :: code) (k + 1) i ↔ Begins (some first.location) code k i := by
  constructor
  · rintro ⟨hi, -, hbefore⟩
    refine ⟨hi, ?_, fun before j hk hj => ?_⟩
    · rintro rfl hsame
      exact hbefore 0 first rfl rfl (Option.some.inj hsame)
    · exact hbefore (before + 1) j (congrArg (· + 1) hk) hj
  · rintro ⟨hi, hprevious, hbefore⟩
    refine ⟨hi, nofun, fun before j hk hj => ?_⟩
    obtain rfl : k = before := Nat.succ.inj hk
    cases k with
    | zero =>
        obtain rfl := Option.some.inj hj
        exact fun hsame => hprevious rfl (congrArg some hsame)
    | succ k => exact hbefore k j rfl hj

/-- The places for breakpoints on a line, from a column on, are those where a statement begins. -/
theorem mem_statementOffsets {line minColumn base offset : Nat} {previous : Option Location}
    {code : List Instruction} : offset ∈ statementOffsets line minColumn previous base code ↔
      ∃ k i, offset = base + k ∧ Begins previous code k i ∧ i.location.line = line ∧
        minColumn ≤ i.location.column := by
  induction code generalizing previous base with
  | nil => exact iff_of_false List.not_mem_nil fun ⟨_, _, _, hbegins, _⟩ => by cases hbegins.there
  | cons first rest ih =>
      have hhead : Begins previous (first :: rest) 0 first ↔ previous ≠ some first.location :=
        ⟨fun h => h.first rfl, fun h => ⟨rfl, fun _ => h, nofun⟩⟩
      have hsplit : (∃ k i, offset = base + k ∧ Begins previous (first :: rest) k i ∧
          i.location.line = line ∧ minColumn ≤ i.location.column) ↔
          (offset = base ∧ previous ≠ some first.location ∧ first.location.line = line ∧
            minColumn ≤ first.location.column) ∨
          offset ∈ statementOffsets line minColumn (some first.location) (base + 1) rest := by
        rw [ih, ← hhead]
        constructor
        · rintro ⟨_ | k, i, rfl, hbegins, hline, hcolumn⟩
          · obtain rfl := Option.some.inj hbegins.there
            exact .inl ⟨rfl, hbegins, hline, hcolumn⟩
          · exact .inr ⟨k, i, Nat.add_right_comm base k 1, begins_cons_succ.1 hbegins, hline,
              hcolumn⟩
        · rintro (⟨rfl, hbegins, hline, hcolumn⟩ | ⟨k, i, rfl, hbegins, hline, hcolumn⟩)
          · exact ⟨0, first, rfl, hbegins, hline, hcolumn⟩
          · exact ⟨k + 1, i, Nat.add_right_comm base 1 k, begins_cons_succ.2 hbegins, hline,
              hcolumn⟩
      rw [hsplit, statementOffsets]
      split
      · rename_i hstarts
        rw [List.mem_cons, and_iff_left hstarts]
      · rename_i hstarts
        rw [or_iff_right fun h => hstarts h.2]

/-- No breakpoint is set between the two instructions of an assignment. -/
theorem Program.Placed.not_store_of_mem_statementOffsets {p : Program} (h : p.Placed)
    {unit : UnitId} {code : CodeUnit} (hunit : p.unit? unit = some code)
    {line minColumn offset : Nat}
    (hmem : offset ∈ statementOffsets line minColumn none 0 code.code) :
    ∃ i, p.instruction? unit offset = some i ∧ i.op.isStore = false := by
  obtain ⟨k, i, hk, ⟨hi, -, hbefore⟩, -⟩ := mem_statementOffsets.1 hmem
  obtain rfl : k = offset := by omega
  have hinstr : p.instruction? unit k = some i := by
    rw [Program.instruction?, hunit]
    exact hi
  refine ⟨i, hinstr, ?_⟩
  cases hstore : i.op.isStore with
  | false => rfl
  | true =>
      obtain ⟨first, j, -, hfirst, hj, -, hsame⟩ := h.paired unit k i hinstr hstore
      rw [Program.instruction?, hunit] at hj
      exact absurd hsame (hbefore first j hfirst hj)

end Machine

end ScriptDebugger
