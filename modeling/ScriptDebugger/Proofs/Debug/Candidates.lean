import ScriptDebugger.Proofs.Debug.BreakpointTables
import ScriptDebugger.Proofs.Machine.Scopes
import ScriptDebugger.Proofs.Machine.StatementStarts
/-!
# Candidates

A unit has a place for a breakpoint just where a statement begins. The places of a path are looked
up from its module down, function by function, and since the units of a program are numbered from
the module down as well, this comes to looking at every unit once, in the order of the numbers. So
the candidates on a line are the starts that a reader of the text finds there, each of them once,
and a breakpoint goes just where a statement starts.

## Main results

* `Breakpoints.mem_candidates_iff` — a lower bound for the column leaves out nothing else.
* `Breakpoints.isSome_resolve_iff` — where a breakpoint is accepted.
* `Breakpoints.candidates_eq` — every unit is looked at once.
* `Leads.tables` — the tables of a debugger are built by registering, setting and removing.
* `breakpoints_on_statement_starts` — candidates and breakpoints of a text.
-/

namespace ScriptDebugger.Debug

open Machine (Begins Lays Program State blockCount blockCounts flatten siblingIds statementOffsets
  statementStarts)
open Source (Block)

/-! ## Candidates -/

namespace Breakpoints

variable {s : State} {line column : Nat} {k : Candidate}

/-- The places in one unit are those of the statements that begin there. -/
theorem mem_candidatesOf_iff {unit : UnitId} : k ∈ candidatesOf s line column unit ↔
    k.unit = unit ∧ k.location.line = line ∧ column ≤ k.location.column ∧
      ∃ code i, s.program.unit? unit = some code ∧ Begins none code.code k.offset i ∧
        i.location = k.location := by
  have hoffsets : Engine.breakpointOffsets s unit line column =
      ((s.program.unit? unit).map fun unit =>
        Machine.statementOffsets line column none 0 unit.code).getD [] := rfl
  have hlocation : ∀ offset, Engine.location? s unit offset =
      ((s.program.unit? unit).bind fun unit => unit.code[offset]?).map (·.location) :=
    fun _ => rfl
  simp only [candidatesOf, List.mem_filterMap, Option.map_eq_some_iff, hoffsets, hlocation]
  constructor
  · rintro ⟨offset, hoffset, location, ⟨i, hi, rfl⟩, rfl⟩
    obtain ⟨code, hcode, hi⟩ := Option.bind_eq_some_iff.1 hi
    rw [hcode] at hoffset
    obtain ⟨n, j, hn, hbegins, hline, hcolumn⟩ := Machine.mem_statementOffsets.1 hoffset
    obtain rfl : offset = n := hn.trans (Nat.zero_add n)
    obtain rfl : i = j := Option.some.inj (hi.symm.trans hbegins.there)
    exact ⟨rfl, hline, hcolumn, code, i, hcode, hbegins, rfl⟩
  · rintro ⟨rfl, hline, hcolumn, code, i, hcode, hbegins, hi⟩
    rw [hcode]
    rw [← hi] at hline hcolumn
    exact ⟨k.offset,
      Machine.mem_statementOffsets.2
        ⟨k.offset, i, (Nat.zero_add _).symm, hbegins, hline, hcolumn⟩,
      i.location, ⟨i, hbegins.there, rfl⟩, by rw [hi]⟩

/-- A place is on the line that is looked at, and a lower bound for the column leaves out the places
before it and no others. -/
theorem mem_candidatesIn_iff {depth : Nat} {unit : UnitId} :
    k ∈ candidatesIn s line column depth unit ↔
      k ∈ candidatesIn s line 0 depth unit ∧ column ≤ k.location.column := by
  induction depth generalizing unit with
  | zero => simp [candidatesIn]
  | succ depth ih =>
      have hhere : k ∈ candidatesOf s line column unit ↔
          k ∈ candidatesOf s line 0 unit ∧ column ≤ k.location.column := by
        simp only [mem_candidatesOf_iff]
        grind
      have hnested : k ∈ (Engine.childUnits s unit).flatMap (candidatesIn s line column depth) ↔
          k ∈ (Engine.childUnits s unit).flatMap (candidatesIn s line 0 depth) ∧
            column ≤ k.location.column := by
        simp only [List.mem_flatMap, ih]
        grind
      rw [candidatesIn, candidatesIn, List.mem_append, List.mem_append, hhere, hnested, or_and_right]

variable {b : Breakpoints} {path : String}

theorem mem_candidates_iff : k ∈ b.candidates s path line column ↔
    k ∈ b.candidates s path line 0 ∧ column ≤ k.location.column := by
  simp only [candidates, List.mem_flatMap]
  constructor
  · rintro ⟨unit, hunit, hk⟩
    obtain ⟨hk, hcolumn⟩ := mem_candidatesIn_iff.1 hk
    exact ⟨⟨unit, hunit, hk⟩, hcolumn⟩
  · rintro ⟨⟨unit, hunit, hk⟩, hcolumn⟩
    exact ⟨unit, hunit, mem_candidatesIn_iff.2 ⟨hk, hcolumn⟩⟩

/-- A breakpoint is accepted just at the places of the whole line. -/
theorem isSome_resolve_iff : (b.resolve s path line column).isSome = true ↔
    ∃ k ∈ b.candidates s path line 0, k.location = ⟨line, column⟩ := by
  rw [resolve, List.find?_isSome]
  constructor
  · rintro ⟨k, hk, hplace⟩
    exact ⟨k, (mem_candidates_iff.1 hk).1, beq_iff_eq.1 hplace⟩
  · rintro ⟨k, hk, hplace⟩
    refine ⟨k, mem_candidates_iff.2 ⟨hk, ?_⟩, beq_iff_eq.2 hplace⟩
    rw [hplace]

/-! ## The units of a program -/

mutual

/-- The walk from a unit down looks at the units of its tree, in the order of their numbers. -/
theorem candidatesIn_block (s : State) (line column : Nat) :
    ∀ (b : Block) (depth : Nat) {parent : Option UnitId} {id : Nat},
      Lays s.program parent id [b] → blockCount b ≤ depth →
      candidatesIn s line column depth ⟨id⟩ =
        (List.range' id (blockCount b)).flatMap fun n => candidatesOf s line column ⟨n⟩
  | ⟨name, params, start, lineCount, code, functions⟩, depth, parent, id, hlays, hdepth => by
    have hchildren : Engine.childUnits s (⟨id⟩ : UnitId) = siblingIds (id + 1) functions := by
      show ((s.program.unit? ⟨id⟩).map (·.children)).getD [] = _
      rw [hlays.unit?_eq]
      rfl
    rw [blockCount] at hdepth ⊢
    obtain ⟨below, rfl⟩ : ∃ below, depth = below + 1 := ⟨depth - 1, by omega⟩
    have hbelow := candidatesIn_blocks s line column functions below hlays.functions (by omega)
    rw [candidatesIn, hchildren, hbelow, Nat.add_comm 1, List.range'_succ, List.flatMap_cons]

/-- The same for siblings. -/
theorem candidatesIn_blocks (s : State) (line column : Nat) :
    ∀ (bs : List Block) (depth : Nat) {parent : Option UnitId} {first : Nat},
      Lays s.program parent first bs → blockCounts bs ≤ depth →
      (siblingIds first bs).flatMap (candidatesIn s line column depth) =
        (List.range' first (blockCounts bs)).flatMap fun n => candidatesOf s line column ⟨n⟩
  | [], _, _, _, _, _ => rfl
  | b :: rest, depth, parent, first, hlays, hdepth => by
    rw [blockCounts] at hdepth ⊢
    have hhead := candidatesIn_block s line column b depth hlays.head (by omega)
    have hrest := candidatesIn_blocks s line column rest depth hlays.tail (by omega)
    rw [siblingIds, List.flatMap_cons, hhead, hrest, ← List.flatMap_append, List.range'_append_1]

end

variable {url source : String}

/-- Every unit is looked at once, in the order of the numbers. -/
theorem candidates_eq (hsource : Program.ofSource url source = .ok s.program)
    (hunits : b.unitsOf? path = some [⟨0⟩]) : b.candidates s path line column =
      (List.range s.program.units.length).flatMap fun n => candidatesOf s line column ⟨n⟩ := by
  unfold Program.ofSource at hsource
  split at hsource
  · rename_i block hblock
    have hprogram : s.program = Program.ofBlock url block := (Except.ok.inj hsource).symm
    obtain ⟨parent, hlays⟩ := (Machine.Shows.ofBlock url block).lays
    have hcount : Engine.unitCount s = blockCount block := by
      show s.program.units.length = _
      rw [hprogram, Program.ofBlock, Machine.flatten_length]
    have hwalk := candidatesIn_block s line column block _ (hprogram ▸ hlays)
      (Nat.le_succ (blockCount block))
    rw [candidates, hunits, Option.getD_some, List.flatMap_singleton, hcount, hwalk,
      ← List.range_eq_range', ← hcount]
    rfl
  · cases hsource

/-- The offsets in a code ascend. -/
theorem statementOffsets_ascend (line minColumn : Nat) (previous : Option Location) (base : Nat)
    (code : List Source.Instruction) :
    (statementOffsets line minColumn previous base code).Pairwise (· < ·) ∧
      ∀ offset ∈ statementOffsets line minColumn previous base code, base ≤ offset := by
  induction code generalizing previous base with
  | nil => exact ⟨List.Pairwise.nil, nofun⟩
  | cons i rest ih =>
      obtain ⟨hrest, hfrom⟩ := ih (some i.location) (base + 1)
      rw [statementOffsets]
      split
      · refine ⟨List.pairwise_cons.2 ⟨hfrom, hrest⟩, fun offset hoffset => ?_⟩
        rcases List.mem_cons.1 hoffset with rfl | hoffset
        · exact Nat.le_refl _
        · exact Nat.le_of_succ_le (hfrom offset hoffset)
      · exact ⟨hrest, fun offset hoffset => Nat.le_of_succ_le (hfrom offset hoffset)⟩

theorem candidatesOf_nodup (s : State) (line column : Nat) (unit : UnitId) :
    (candidatesOf s line column unit).Nodup := by
  have hoffsets : (Engine.breakpointOffsets s unit line column).Nodup := by
    show (((s.program.unit? unit).map fun unit =>
      statementOffsets line column none 0 unit.code).getD []).Nodup
    cases s.program.unit? unit with
    | none => exact List.nodup_nil
    | some code => exact (statementOffsets_ascend line column none 0 code.code).1.imp Nat.ne_of_lt
  refine hoffsets.filterMap ?_
  intro offset offset' k hk hk'
  obtain ⟨location, -, rfl⟩ := Option.map_eq_some_iff.1 hk
  obtain ⟨location', -, hsame⟩ := Option.map_eq_some_iff.1 hk'
  exact (congrArg Candidate.offset hsame).symm

/-- No candidate is found twice. -/
theorem candidates_nodup (hsource : Program.ofSource url source = .ok s.program)
    (hunits : b.unitsOf? path = some [⟨0⟩]) (line column : Nat) :
    (b.candidates s path line column).Nodup := by
  rw [candidates_eq hsource hunits, List.nodup_flatMap]
  refine ⟨fun n _ => candidatesOf_nodup s line column ⟨n⟩, List.nodup_range.imp ?_⟩
  intro n m hne k hk hk'
  have hn := (mem_candidatesOf_iff.1 hk).1
  have hm := (mem_candidatesOf_iff.1 hk').1
  exact hne (congrArg UnitId.number (hn.symm.trans hm))

/-- The candidates are the starts of statements on the line, from the column on. -/
theorem mem_candidates_iff_start (hsource : Program.ofSource url source = .ok s.program)
    (hunits : b.unitsOf? path = some [⟨0⟩]) : k ∈ b.candidates s path line column ↔
      k ∈ statementStarts source ∧ k.location.line = line ∧ column ≤ k.location.column := by
  rw [candidates_eq hsource hunits, Machine.mem_statementStarts_iff hsource]
  simp only [List.mem_flatMap, List.mem_range, mem_candidatesOf_iff]
  constructor
  · rintro ⟨n, -, hunit, hline, hcolumn, code, i, hcode, hbegins, hplace⟩
    rw [← hunit] at hcode
    exact ⟨⟨code, i, hcode, hbegins, hplace⟩, hline, hcolumn⟩
  · rintro ⟨⟨unit, i, hunit, hbegins, hplace⟩, hline, hcolumn⟩
    have hlt : k.unit.number < s.program.units.length := (List.getElem?_eq_some_iff.1 hunit).1
    exact ⟨k.unit.number, hlt, rfl, hline, hcolumn, unit, i, hunit, hbegins, hplace⟩

/-! ## Setting a breakpoint -/

theorem mem_setBreakpoint_iff (s : State) (unit : UnitId) (offset : Nat) (place : UnitId × Nat) :
    place ∈ (Engine.setBreakpoint s unit offset).breakpoints ↔
      place ∈ s.breakpoints ∨ place = (unit, offset) := by
  show place ∈ (if s.hasBreakpoint unit offset then s else
    { s with breakpoints := (unit, offset) :: s.breakpoints } : State).breakpoints ↔ _
  by_cases hthere : s.hasBreakpoint unit offset = true
  · rw [if_pos hthere]
    refine (or_iff_left_of_imp ?_).symm
    rintro rfl
    exact List.contains_iff_mem.1 hthere
  · rw [if_neg hthere]
    exact List.mem_cons.trans or_comm

/-- Where there is a place, the machine has the breakpoint then, and the tables know it by the
number that is told. -/
theorem set_of_resolve (h : Agree b s) (hresolve : b.resolve s path line column = some k) :
    ∃ number : Nat, 1 ≤ number ∧ (b.set s path line column).2.2 = number ∧
      ⟨number, k.unit, k.offset⟩ ∈ (b.set s path line column).1.points ∧
      ∀ place, place ∈ (b.set s path line column).2.1.breakpoints ↔
        place ∈ s.breakpoints ∨ place = (k.unit, k.offset) := by
  cases hid : b.idAt k.unit k.offset with
  | some number =>
      have hentry := mem_byPlace_of_idAt hid
      have hpoint := (h.inverse _ _ _).1 hentry
      have hplace : (k.unit, k.offset) ∈ s.breakpoints :=
        (h.places _).2 (List.mem_map.2 ⟨_, hentry, rfl⟩)
      have hrange := h.range number (List.mem_map.2 ⟨_, hpoint, rfl⟩)
      rw [set_of_known hresolve hid]
      refine ⟨number, hrange.1, rfl, hpoint, fun place => (or_iff_left_of_imp ?_).symm⟩
      rintro rfl
      exact hplace
  | none =>
      rw [set_of_new hresolve hid]
      exact ⟨b.lastId + 1, Nat.le_add_left 1 _, rfl, List.mem_cons_self,
        mem_setBreakpoint_iff s k.unit k.offset⟩

end Breakpoints

/-! ## All tables of a program -/

/-- The tables and the machine that come of making the units of a program known, of setting
breakpoints and of removing them, in any order, while the machine goes on in its program. -/
inductive Tables (p : Program) : Breakpoints → State → Prop
  | new {s : State} (hprogram : s.program = p) (hplaces : s.breakpoints = []) : Tables p .initial s
  | registerAll {b : Breakpoints} {s : State} (h : Tables p b s) : Tables p (b.registerAll s) s
  | set {b : Breakpoints} {s : State} (h : Tables p b s) (path : String) (line column : Nat) :
      Tables p (b.set s path line column).1 (b.set s path line column).2.1
  | remove {b : Breakpoints} {s : State} (h : Tables p b s) (id : Int) :
      Tables p (b.remove s id).1 (b.remove s id).2.1
  | run {b : Breakpoints} {s t : State} (h : Tables p b s) (hprogram : t.program = s.program)
      (hplaces : t.breakpoints = s.breakpoints) : Tables p b t

namespace Tables

variable {p : Program} {b : Breakpoints} {s : State}

/-- What holds of all tables of a program. -/
theorem sound (h : Tables p b s) :
    s.program = p ∧ Agree b s ∧ (b.files = [] ∨ b.files = [(p.url, [⟨0⟩])]) := by
  induction h with
  | @new s hprogram hplaces =>
      refine ⟨hprogram, ?_, .inl rfl⟩
      exact
        { places := fun place => by rw [hplaces]; exact Iff.rfl
          inverse := fun _ _ _ => iff_of_false List.not_mem_nil List.not_mem_nil
          keyed := List.nodup_nil, numbered := List.nodup_nil
          range := fun _ hid => absurd hid List.not_mem_nil }
  | @registerAll b s _ ih =>
      obtain ⟨rfl, hagree, hfiles⟩ := ih
      rcases registerAll_cases hfiles with hsame | hknown
      · rw [hsame]
        exact ⟨rfl, hagree, hfiles⟩
      · rw [hknown]
        exact ⟨rfl, hagree.of_registered [(s.program.url, [⟨0⟩])], .inr rfl⟩
  | @set b s _ path line column ih =>
      obtain ⟨hprogram, hagree, hfiles⟩ := ih
      cases hresolve : b.resolve s path line column with
      | none =>
          rw [Breakpoints.set_of_unresolved hresolve]
          exact ⟨hprogram, hagree, hfiles⟩
      | some k =>
          cases hid : b.idAt k.unit k.offset with
          | some number =>
              rw [Breakpoints.set_of_known hresolve hid]
              exact ⟨hprogram, hagree, hfiles⟩
          | none =>
              rw [Breakpoints.set_of_new hresolve hid]
              exact ⟨(setBreakpoint_program s _ _).trans hprogram, hagree.of_installed hid, hfiles⟩
  | @remove b s _ id ih =>
      obtain ⟨hprogram, hagree, hfiles⟩ := ih
      rw [Breakpoints.remove]
      split
      · exact ⟨hprogram, hagree, hfiles⟩
      · rename_i hfind
        exact ⟨hprogram, hagree.of_removed (List.mem_of_find?_eq_some hfind), hfiles⟩
  | run _ hprogram hplaces ih =>
      obtain ⟨rfl, hagree, hfiles⟩ := ih
      exact ⟨hprogram, hagree.of_kept hplaces, hfiles⟩

/-- A file that is known is that of the program, with its module. -/
theorem unitsOf?_eq (h : Tables p b s) (hknown : b.knowsFile p.url = true) :
    b.unitsOf? p.url = some [⟨0⟩] := by
  obtain ⟨-, -, hfiles | hfiles⟩ := h.sound
  · rw [Breakpoints.knowsFile, Breakpoints.unitsOf?, hfiles] at hknown
    cases hknown
  · rw [Breakpoints.unitsOf?, hfiles]
    simp

/-- Registering makes the file of a program known that was compiled. -/
theorem knowsFile_registerAll {url source : String} (h : Tables p b s)
    (hsource : Program.ofSource url source = .ok p) : (b.registerAll s).knowsFile url = true := by
  obtain ⟨rfl, -, hfiles⟩ := h.sound
  obtain rfl := Program.url_of_ofSource hsource
  obtain ⟨module, hmodule⟩ :=
    Option.isSome_iff_exists.1 (Machine.placed_of_ofSource hsource).module
  have hunits : s.program.units.isEmpty = false := by
    cases hempty : s.program.units with
    | nil =>
        rw [Program.unit?, hempty] at hmodule
        cases hmodule
    | cons unit rest => rfl
  have htop : Engine.topUnits s = [⟨0⟩] := by
    show (if s.program.units.isEmpty then [] else [⟨0⟩] : List UnitId) = [⟨0⟩]
    rw [hunits]
    rfl
  have hinfo : Engine.unitInfo? s ⟨0⟩ =
      some ⟨s.program.url, module.start, module.lineCount⟩ := by
    show (s.program.unit? ⟨0⟩).map _ = _
    rw [hmodule]
    rfl
  have hregister : (b.registerAll s).files =
      Breakpoints.insertFile s.program.url ⟨0⟩ b.files := by
    rw [Breakpoints.registerAll, htop, List.foldl_cons, List.foldl_nil, Breakpoints.registerUnit,
      hinfo]
  rw [Breakpoints.knowsFile, Breakpoints.unitsOf?, hregister]
  rcases hfiles with hfiles | hfiles
  · simp [hfiles, Breakpoints.insertFile]
  · simp [hfiles, Breakpoints.insertFile]

/-- Every change of the tables is one of these, as long as no program can be chosen once there is
anything in them. -/
theorem change {b' : Breakpoints} {s' : State} (h : Tables s.program b s)
    (hfresh : s.started = false → b = .initial) (hchange : Change b s b' s') :
    Tables s'.program b' s' ∧ (s'.started = false → b' = .initial) := by
  cases hchange with
  | kept hplaces hprogram hstarted =>
      refine ⟨hprogram ▸ h.run hprogram hplaces, fun hunstarted => hfresh ?_⟩
      exact Bool.eq_false_iff.2 fun hold => by cases (hstarted hold).symm.trans hunstarted
  | registered hplaces hprogram hstarted =>
      refine ⟨hprogram ▸ (h.run hprogram hplaces).registerAll, fun hunstarted => ?_⟩
      cases hstarted.symm.trans hunstarted
  | selected path =>
      unfold State.selectProgram
      split
      · exact ⟨h, hfresh⟩
      · rename_i hopen
        have hunstarted : s.started = false := by
          simp only [not_or, Bool.not_eq_true] at hopen
          exact hopen.2
        -- another program, but the tables are still as they were in the beginning
        split
        · rw [hfresh hunstarted]
          exact ⟨.new rfl rfl, fun _ => rfl⟩
        · exact ⟨h, hfresh⟩
  | @installed path line column k hresolve hnew =>
      have hset := h.set path line column
      rw [Breakpoints.set_of_new hresolve hnew] at hset
      rw [setBreakpoint_program, setBreakpoint_started]
      refine ⟨hset, fun hunstarted => ?_⟩
      rw [hfresh hunstarted] at hresolve
      cases hresolve
  | @removed p hp =>
      have hfind : (b.points.find? fun q => (q.id : Int) == p.id) = some p := by
        have hsome : (b.points.find? fun q => (q.id : Int) == p.id).isSome = true :=
          List.find?_isSome.2 ⟨p, hp, beq_self_eq_true (p.id : Int)⟩
        obtain ⟨q, hq⟩ := Option.isSome_iff_exists.1 hsome
        have hid : q.id = p.id := by simpa using List.find?_some hq
        obtain ⟨-, hagree, -⟩ := h.sound
        rw [hq, List.inj_on_of_nodup_map hagree.numbered (List.mem_of_find?_eq_some hq) hp hid]
      have hremove := h.remove p.id
      simp only [Breakpoints.remove, hfind] at hremove
      refine ⟨hremove, fun hunstarted => ?_⟩
      rw [hfresh hunstarted] at hp
      cases hp

end Tables

/-- The tables of a debugger are such ones in every state that it reaches. -/
theorem Leads.tables {library : String → Option String} {program : Program} {c : Context}
    {s : State} {ids : List Nat}
    (h : Leads .initial (State.initial library program) c s ids) :
    Tables s.program c.breakpoints s ∧ (s.started = false → c.breakpoints = .initial) := by
  induction h with
  | stay => exact ⟨.new rfl rfl, fun _ => rfl⟩
  | move _ hmove ih => exact ih.1.change ih.2 hmove.change

/-! ## Breakpoints and the text -/

/-- A statement starts with its first instruction. No other unit has an instruction at its place,
and in its unit none stands before. -/
theorem first_of_mem_statementStarts {url source : String} {p : Program}
    (hsource : Program.ofSource url source = .ok p) {k : Candidate}
    (hk : k ∈ statementStarts source) :
    (∃ i, p.instruction? k.unit k.offset = some i ∧ i.location = k.location) ∧
      ∀ unit offset i, p.instruction? unit offset = some i → i.location = k.location →
        unit = k.unit ∧ k.offset ≤ offset := by
  have hplaced := Machine.placed_of_ofSource hsource
  obtain ⟨code, i, hcode, hbegins, hplace⟩ := (Machine.mem_statementStarts_iff hsource).1 hk
  have hoffset : k.offset ∈
      statementOffsets k.location.line k.location.column none 0 code.code :=
    Machine.mem_statementOffsets.2
      ⟨k.offset, i, (Nat.zero_add _).symm, hbegins, by rw [hplace], by rw [hplace]⟩
  obtain ⟨j, hj, hop⟩ := hplaced.not_store_of_mem_statementOffsets hcode hoffset
  have hstart : p.statementStart k.unit k.offset = k.offset := by
    simp [Program.statementStart, hj, hop]
  have hi : p.instruction? k.unit k.offset = some i := by
    rw [Program.instruction?, hcode]
    exact hbegins.there
  refine ⟨⟨i, hi, hplace⟩, fun unit offset i' hi' hplace' => ?_⟩
  obtain ⟨hunit, hsame⟩ := (hplaced.location_eq_iff hi' hi).1 (hplace'.trans hplace.symm)
  refine ⟨hunit, ?_⟩
  rw [← hstart, ← hsame, Program.statementStart]
  split
  · exact Nat.sub_le _ _
  · exact Nat.le_refl _

/-- Two starts of a text at one place are the same. -/
theorem eq_of_mem_statementStarts {source : String} {k k' : Candidate}
    (hk : k ∈ statementStarts source) (hk' : k' ∈ statementStarts source)
    (hplace : k.location = k'.location) : k = k' := by
  have hnodup : ((statementStarts source).map (·.location)).Nodup :=
    List.pairwise_map.2 ((Machine.statementStarts_ordered source).imp fun hbefore => hbefore.ne)
  exact List.inj_on_of_nodup_map hnodup hk hk' hplace

/-- A breakpoint is put where a statement starts, and at the first instruction of that one. -/
theorem Breakpoints.resolve_eq_some_iff_start {url source : String} {b : Breakpoints} {s : State}
    (hsource : Program.ofSource url source = .ok s.program) (hunits : b.unitsOf? url = some [⟨0⟩])
    {line column : Nat} {k : Candidate} :
    b.resolve s url line column = some k ↔
      k ∈ statementStarts source ∧ k.location = ⟨line, column⟩ := by
  have hstart : ∀ {k}, b.resolve s url line column = some k →
      k ∈ statementStarts source ∧ k.location = ⟨line, column⟩ := by
    intro k hresolve
    have hmem := List.mem_of_find?_eq_some hresolve
    exact ⟨((mem_candidates_iff_start hsource hunits).1 hmem).1,
      by simpa using List.find?_some hresolve⟩
  refine ⟨hstart, ?_⟩
  rintro ⟨hk, hplace⟩
  have hthere : k ∈ b.candidates s url line 0 :=
    (mem_candidates_iff_start hsource hunits).2 ⟨hk, by rw [hplace], Nat.zero_le _⟩
  obtain ⟨k', hk'⟩ := Option.isSome_iff_exists.1 (isSome_resolve_iff.2 ⟨k, hthere, hplace⟩)
  obtain ⟨hfound, hplace'⟩ := hstart hk'
  rw [hk', eq_of_mem_statementStarts hfound hk (hplace'.trans hplace.symm)]

/-- The places of a compiled program whose file is known are the starts of the executable
statements of its text. On every line, from any column on, the candidates are these starts, each of
them once, and no two candidates of the program have one location. A breakpoint gets a number just
where a statement starts, and then the machine has it, besides those that it had, at the first
instruction of that statement, in the unit that the statement stands in. -/
theorem breakpoints_on_statement_starts {url source : String} {p : Program}
    (hsource : Program.ofSource url source = .ok p) {b : Breakpoints} {s : State}
    (h : Tables p b s) (hknown : b.knowsFile url = true) (line column : Nat) :
    (b.candidates s url line column).Perm
      ((statementStarts source).filter fun k =>
        k.location.line = line ∧ column ≤ k.location.column) ∧
    ((b.candidates s url line column).map (·.location)).Nodup ∧
    (∀ line' column', ∀ k ∈ b.candidates s url line column,
      ∀ k' ∈ b.candidates s url line' column', k.location = k'.location → k = k') ∧
    (1 ≤ (b.set s url line column).2.2 ↔
      ∃ k ∈ statementStarts source, k.location = ⟨line, column⟩) ∧
    ∀ k ∈ statementStarts source, k.location = ⟨line, column⟩ →
      (∃ i, p.instruction? k.unit k.offset = some i ∧ i.location = ⟨line, column⟩) ∧
      (∀ unit offset i, p.instruction? unit offset = some i → i.location = ⟨line, column⟩ →
        unit = k.unit ∧ k.offset ≤ offset) ∧
      (∃ number : Nat, (b.set s url line column).2.2 = number ∧
        ⟨number, k.unit, k.offset⟩ ∈ (b.set s url line column).1.points) ∧
      ∀ place, place ∈ (b.set s url line column).2.1.breakpoints ↔
        place ∈ s.breakpoints ∨ place = (k.unit, k.offset) := by
  obtain ⟨rfl, hagree, -⟩ := h.sound
  have hunits : b.unitsOf? url = some [⟨0⟩] := by
    obtain rfl := Program.url_of_ofSource hsource
    exact h.unitsOf?_eq hknown
  have hmem : ∀ {line column k}, k ∈ b.candidates s url line column ↔ k ∈ statementStarts source ∧
      k.location.line = line ∧ column ≤ k.location.column :=
    Breakpoints.mem_candidates_iff_start hsource hunits
  have hnodup := Breakpoints.candidates_nodup hsource hunits line column
  have hresolve : ∀ {k}, b.resolve s url line column = some k ↔
      k ∈ statementStarts source ∧ k.location = ⟨line, column⟩ :=
    Breakpoints.resolve_eq_some_iff_start hsource hunits
  refine ⟨?_, ?_, ?_, ?_, ?_⟩
  · have hstarts : (statementStarts source).Nodup :=
      (Machine.statementStarts_ordered source).imp fun hbefore hsame => hbefore.ne (by rw [hsame])
    refine (List.perm_ext_iff_of_nodup hnodup (hstarts.filter _)).2 fun k => ?_
    rw [hmem, List.mem_filter, decide_eq_true_iff]
  · refine hnodup.map_on fun k hk k' hk' hplace => ?_
    exact eq_of_mem_statementStarts (hmem.1 hk).1 (hmem.1 hk').1 hplace
  · intro line' column' k hk k' hk' hplace
    exact eq_of_mem_statementStarts (hmem.1 hk).1 (hmem.1 hk').1 hplace
  · constructor
    · intro hid
      cases hfound : b.resolve s url line column with
      | none =>
          rw [Breakpoints.set_of_unresolved hfound] at hid
          cases hid
      | some k => exact ⟨k, hresolve.1 hfound⟩
    · rintro ⟨k, hk, hplace⟩
      obtain ⟨number, hpositive, hid, -⟩ :=
        Breakpoints.set_of_resolve hagree (hresolve.2 ⟨hk, hplace⟩)
      rw [hid]
      exact Int.ofNat_le.2 hpositive
  · intro k hk hplace
    obtain ⟨hfirst, hlater⟩ := first_of_mem_statementStarts hsource hk
    obtain ⟨number, -, hid, hpoint, hplaces⟩ :=
      Breakpoints.set_of_resolve hagree (hresolve.2 ⟨hk, hplace⟩)
    rw [hplace] at hfirst hlater
    exact ⟨hfirst, hlater, ⟨number, hid, hpoint⟩, hplaces⟩

/-- A function in a function, all on one line: from a column on, the end of the inner one, that of
the outer one and the statement behind are left, and a breakpoint goes on the statement inside. -/
theorem breakpoints_on_statement_starts_nested :
    ∃ (p : Program) (b : Breakpoints) (s : State),
      Program.ofSource "main.mod"
        "function f; let x = 1; function g; print 1; end; end; print 2\n" = .ok p ∧
      Tables p b s ∧ b.knowsFile "main.mod" = true ∧
      (b.candidates s "main.mod" 1 40).Perm
        [⟨⟨2⟩, 1, ⟨1, 44⟩⟩, ⟨⟨1⟩, 2, ⟨1, 49⟩⟩, ⟨⟨0⟩, 0, ⟨1, 54⟩⟩] ∧
      1 ≤ (b.set s "main.mod" 1 35).2.2 ∧ (⟨2⟩, 0) ∈ (b.set s "main.mod" 1 35).2.1.breakpoints := by
  have hcomputed :
      ((Program.ofSource "main.mod"
        "function f; let x = 1; function g; print 1; end; end; print 2\n").toOption.bind fun p =>
          some p.units.length) = some 3 := by cbv
  obtain ⟨p, hsource, -⟩ := Program.exists_of_ofSource hcomputed
  have hnew : Tables p .initial (State.initial (fun _ => none) p) := .new rfl rfl
  have hknown := hnew.knowsFile_registerAll hsource
  have hstarts : statementStarts
      "function f; let x = 1; function g; print 1; end; end; print 2\n" =
        [⟨⟨1⟩, 0, ⟨1, 12⟩⟩, ⟨⟨2⟩, 0, ⟨1, 35⟩⟩, ⟨⟨2⟩, 1, ⟨1, 44⟩⟩, ⟨⟨1⟩, 2, ⟨1, 49⟩⟩,
          ⟨⟨0⟩, 0, ⟨1, 54⟩⟩] := by decide +kernel
  obtain ⟨hcandidates, -⟩ :=
    breakpoints_on_statement_starts hsource hnew.registerAll hknown 1 40
  obtain ⟨-, -, -, hnumber, hplaces⟩ :=
    breakpoints_on_statement_starts hsource hnew.registerAll hknown 1 35
  have hinside : (⟨⟨2⟩, 0, ⟨1, 35⟩⟩ : Candidate) ∈ statementStarts
      "function f; let x = 1; function g; print 1; end; end; print 2\n" := by
    rw [hstarts]
    exact List.mem_cons_of_mem _ List.mem_cons_self
  obtain ⟨-, -, -, hset⟩ := hplaces _ hinside rfl
  rw [hstarts] at hcandidates
  exact ⟨p, _, _, hsource, hnew.registerAll, hknown, hcandidates, hnumber.2 ⟨_, hinside, rfl⟩,
    (hset _).2 (.inr rfl)⟩

end ScriptDebugger.Debug
