import ScriptDebugger.Proofs.Debug.Pauses
import ScriptDebugger.Proofs.Debug.References
/-!
# The tables of breakpoints

A debugger knows its breakpoints by their numbers and by their places, and the machine knows the
places once more. Requests change all three, each in its own way, and the choice of another program
clears the places of the machine alone. That does no harm, because no unit is known, and so no
breakpoint can be set, before the program has started, and no program can be chosen behind the
start.

`Move` is one thing that a debugger with its machine does, small enough that every state on the way
is seen, and `Change` what it makes of the tables. An invariant of the tables is proved by the five
cases of `Change`.

## Main results

* `Coherent.change` — the tables agree behind every change.
* `Leads.numbers_eq` — numbers are given out one behind the other.
* `Leads.set_again` — a place that has a breakpoint keeps its number for as long as it is there.
* `breakpoint_tables_agree` — all of it for every state that is reached, and for every message that
  announces a breakpoint.
-/

namespace ScriptDebugger.Machine.State

/-! ## The machine -/

/-- No small step changes the places, whatever it reports. -/
theorem Step.breakpoints_eq {hooks : Hooks} {s t : State} {event : Option Event}
    (h : Step hooks s t event) : t.breakpoints = s.breakpoints := by
  by_cases hpop : ∃ frame, event = some (.pop frame)
  · obtain ⟨frame, rfl⟩ := hpop
    obtain ⟨top, below, -, -, -, -, -, -, rfl⟩ := h.pop_inv
    rfl
  · rw [h.eq_tick fun frame hframe => hpop ⟨frame, hframe⟩, tick_breakpoints]

/-- A step that reports a breakpoint leaves the machine standing at it. -/
theorem Step.stands_of_breakpoint {hooks : Hooks} {s t : State} {frame : FrameId} {offset : Nat}
    (h : Step hooks s t (some (.breakpoint frame offset))) :
    ∃ top below, t.stack = top :: below ∧ top.id = frame ∧ top.pc = offset ∧
      t.hasBreakpoint top.unit top.pc = true := by
  generalize hevent : some (Event.breakpoint frame offset) = event at h
  cases h with
  | enter => split at hevent <;> cases hevent
  | @consider top below =>
      simp only [boundaryEvent] at hevent
      split at hevent
      · rename_i harmed
        cases hevent
        exact ⟨_, below, rfl, rfl, rfl, harmed⟩
      · split at hevent <;> cases hevent
  | _ => cases hevent

end ScriptDebugger.Machine.State

namespace ScriptDebugger.Debug

open Machine (State Activation Control Program)
open Wire (HostMessage DebuggerMessage)

/-! ## Moves -/

/-- One thing that a debugger with its machine does. -/
inductive Move (c : Context) (s : State) : Context → State → Prop
  /-- A message of the front end is carried out. -/
  | request {message : HostMessage} {c' : Context} {s' : State} {reply : Option DebuggerMessage}
      {outcome : Outcome} (hperform : Agent.perform c s message = (c', s', reply, outcome)) :
      Move c s c' s'
  /-- The pause is ended. -/
  | resume (mode : RunMode) : Move c s (c.resume mode) s
  /-- The machine takes a small step that has no event. -/
  | quiet {s' : State} (hadvance : Engine.advance c.hooks s = (s', none)) : Move c s c s'
  /-- The machine takes a small step, and the debugger takes its event. -/
  | event {s' : State} {event : Event} {c' : Context} {stop : Option Stop}
      (hadvance : Engine.advance c.hooks s = (s', some event))
      (hevent : c.onEvent s' event = (c', stop)) : Move c s c' s'

/-- The numbers of the breakpoints. -/
def Breakpoints.numbers (b : Breakpoints) : List Nat := b.points.map (·.id)

/-- The numbers that some breakpoint has now and none had before. -/
def newNumbers (before now : Breakpoints) : List Nat :=
  now.numbers.filter fun id => !before.numbers.contains id

/-- Moves lead on from `c` and `s`. The list has the numbers that breakpoints were given on the way,
in order. -/
inductive Leads (c : Context) (s : State) : Context → State → List Nat → Prop
  | stay : Leads c s c s []
  | move {c₁ c₂ : Context} {s₁ s₂ : State} {numbers : List Nat} (h : Leads c s c₁ s₁ numbers)
      (hmove : Move c₁ s₁ c₂ s₂) :
      Leads c s c₂ s₂ (numbers ++ newNumbers c₁.breakpoints c₂.breakpoints)

theorem newNumbers_self (b : Breakpoints) : newNumbers b b = [] := by
  simp [newNumbers]

/-! ## Changes -/

/-- What a move makes of the tables `b` and of the places of the machine `s`. -/
inductive Change (b : Breakpoints) (s : State) : Breakpoints → State → Prop
  /-- They stay. -/
  | kept {s' : State} (hplaces : s'.breakpoints = s.breakpoints)
      (hprogram : s'.program = s.program) (hstarted : s.started = true → s'.started = true) :
      Change b s b s'
  /-- The units of the running program become known. -/
  | registered {s' : State} (hplaces : s'.breakpoints = s.breakpoints)
      (hprogram : s'.program = s.program) (hstarted : s'.started = true) :
      Change b s (b.registerAll s') s'
  /-- A program is chosen. -/
  | selected (path : String) : Change b s b (s.selectProgram path)
  /-- A breakpoint is set where there was none. -/
  | installed {path : String} {line column : Nat} {k : Candidate}
      (hresolve : b.resolve s path line column = some k) (hnew : b.idAt k.unit k.offset = none) :
      Change b s
        { b with
          points := ⟨b.lastId + 1, k.unit, k.offset⟩ :: b.points
          byPlace := ((k.unit, k.offset), b.lastId + 1) :: b.byPlace
          lastId := b.lastId + 1 }
        (Engine.setBreakpoint s k.unit k.offset)
  /-- A breakpoint is removed. -/
  | removed {p : Breakpoint} (hp : p ∈ b.points) :
      Change b s
        { b with
          points := b.points.filter fun q => q.id != p.id
          byPlace := b.byPlace.filter fun entry => entry.1 != (p.unit, p.offset) }
        (Engine.clearBreakpoint s p.unit p.offset)

theorem change_refl (b : Breakpoints) (s : State) : Change b s b s := .kept rfl rfl id

namespace Breakpoints

variable {b : Breakpoints} {s : State} {path : String} {line column : Nat} {k : Candidate}

theorem set_of_unresolved (hresolve : b.resolve s path line column = none) :
    b.set s path line column = (b, s, unresolvedId) := by
  rw [set, hresolve]

/-- A place that has a breakpoint keeps it. -/
theorem set_of_known {number : Nat} (hresolve : b.resolve s path line column = some k)
    (hid : b.idAt k.unit k.offset = some number) :
    b.set s path line column = (b, s, (number : Int)) := by
  simp only [set, hresolve, hid]

/-- A place that has none gets one of the next number. -/
theorem set_of_new (hresolve : b.resolve s path line column = some k)
    (hid : b.idAt k.unit k.offset = none) :
    b.set s path line column =
      ({ b with
          points := ⟨b.lastId + 1, k.unit, k.offset⟩ :: b.points
          byPlace := ((k.unit, k.offset), b.lastId + 1) :: b.byPlace
          lastId := b.lastId + 1 },
        Engine.setBreakpoint s k.unit k.offset, ((b.lastId + 1 : Nat) : Int)) := by
  simp only [set, hresolve, hid]

end Breakpoints

theorem change_set (b : Breakpoints) (s : State) (path : String) (line column : Nat) :
    Change b s (b.set s path line column).1 (b.set s path line column).2.1 := by
  cases hresolve : b.resolve s path line column with
  | none =>
      rw [Breakpoints.set_of_unresolved hresolve]
      exact change_refl b s
  | some k =>
      cases hid : b.idAt k.unit k.offset with
      | some id =>
          rw [Breakpoints.set_of_known hresolve hid]
          exact change_refl b s
      | none =>
          rw [Breakpoints.set_of_new hresolve hid]
          exact .installed hresolve hid

theorem change_remove (b : Breakpoints) (s : State) (id : Int) :
    Change b s (b.remove s id).1 (b.remove s id).2.1 := by
  rw [Breakpoints.remove]
  cases hfind : b.points.find? fun p => (p.id : Int) == id with
  | none => exact change_refl b s
  | some p => exact .removed (List.mem_of_find?_eq_some hfind)

/-! ## Variables -/

theorem setProperty_breakpoints {s t : State} {id : ObjectId} {name : String} {value : Value}
    (h : Engine.setProperty s id name value = .ok t) : t.breakpoints = s.breakpoints := by
  obtain ⟨-, rfl⟩ := setProperty_ok h
  rfl

theorem setBinding_breakpoints {s t : State} {frame : FrameId} {name : String} {value : Value}
    (h : Engine.setBinding s frame name value = .ok t) : t.breakpoints = s.breakpoints := by
  obtain ⟨-, bindings, -, -, rfl⟩ := setBinding_ok h
  rfl

/-- Giving a value to a variable does not touch the places. -/
theorem setVariable_breakpoints (c : Context) (s : State) (reference : Nat) (name : String)
    (value : Json) : (c.setVariable s reference name value).1.breakpoints = s.breakpoints := by
  have himport : (Engine.importValue s value).1.breakpoints = s.breakpoints := rfl
  unfold Context.setVariable
  split
  · rfl
  · simp only
    split
    · exact himport
    · rename_i hset
      exact (setProperty_breakpoints hset).trans himport
  · split
    · rfl
    · simp only
      split
      · exact himport
      · rename_i hset
        exact (setBinding_breakpoints hset).trans himport

/-- An assignment, whether it is accepted or not, leaves the tables of both sides and the program as
they are. -/
theorem perform_setVariable_kept (c : Context) (s : State) (reference : Nat) (name : String)
    (value : Json) :
    (Agent.perform c s (.setVariable reference name value)).1.breakpoints = c.breakpoints ∧
      (Agent.perform c s (.setVariable reference name value)).2.1.breakpoints = s.breakpoints ∧
      (Agent.perform c s (.setVariable reference name value)).2.1.control = s.control := by
  have hplaces := setVariable_breakpoints c s reference name value
  have hcontrol := (touched_setVariable c s reference name value).control
  simp only [Agent.perform]
  rcases hset : c.setVariable s reference name value with ⟨t, e | ⟨c', v⟩⟩
  · rw [hset] at hplaces hcontrol
    exact ⟨rfl, hplaces, hcontrol⟩
  · rw [hset] at hplaces hcontrol
    obtain ⟨rfl, -⟩ := Context.setVariable_ok s c reference hset
    exact ⟨rfl, hplaces, hcontrol⟩

/-! ## What a move makes of the tables -/

theorem onEvent_breakpoints (c : Context) (s : State) (event : Event) :
    (c.onEvent s event).1.breakpoints = c.breakpoints ∨
      (c.onEvent s event).1.breakpoints = c.breakpoints.registerAll s := by
  unfold Context.onEvent
  split
  · exact Or.inl rfl
  · exact Or.inr rfl

/-- A message of the front end changes the tables by setting and removing, and the machine's places
alone by choosing a program. -/
theorem change_perform (c : Context) (s : State) (message : HostMessage) :
    Change c.breakpoints s (Agent.perform c s message).1.breakpoints
      (Agent.perform c s message).2.1 := by
  cases message with
  | loadProgram path => exact .selected path
  | setBreakpoint path line column => exact change_set c.breakpoints s path line column
  | removeBreakpoint id => exact change_remove c.breakpoints s id
  | getVariables reference =>
      simp only [Agent.perform, Context.variablesBehind_eq]
      cases c.entriesBehind s reference <;> exact change_refl c.breakpoints s
  | setVariable reference name value =>
      obtain ⟨htables, hplaces, hcontrol⟩ := perform_setVariable_kept c s reference name value
      rw [htables]
      exact .kept hplaces (congrArg Control.program hcontrol)
        (congrArg Control.started hcontrol).trans
  | _ => exact change_refl c.breakpoints s

/-- What a move makes of the tables. -/
theorem Move.change {c c' : Context} {s s' : State} (h : Move c s c' s') :
    Change c.breakpoints s c'.breakpoints s' := by
  cases h with
  | request hperform =>
      rename_i message _ _
      have hchange := change_perform c s message
      rw [hperform] at hchange
      exact hchange
  | resume mode => exact change_refl c.breakpoints s
  | quiet hadvance =>
      have hstep := State.step_of_advance hadvance
      exact .kept hstep.breakpoints_eq hstep.program_eq fun _ => hstep.started
  | event hadvance hevent =>
      rename_i event _
      have hstep := State.step_of_advance hadvance
      have hbreakpoints := onEvent_breakpoints c s' event
      rw [hevent] at hbreakpoints
      rcases hbreakpoints with hsame | hregister
      · rw [hsame]
        exact .kept hstep.breakpoints_eq hstep.program_eq fun _ => hstep.started
      · rw [hregister]
        exact .registered hstep.breakpoints_eq hstep.program_eq hstep.started

/-! ## Agreement -/

/-- The tables of the debugger and the places of the machine agree. -/
structure Agree (b : Breakpoints) (s : State) : Prop where
  /-- The machine has a breakpoint exactly where the debugger knows one. -/
  places : ∀ place, place ∈ s.breakpoints ↔ place ∈ b.byPlace.map Prod.fst
  /-- The two tables hold the same breakpoints. -/
  inverse : ∀ id unit offset, ((unit, offset), id) ∈ b.byPlace ↔ ⟨id, unit, offset⟩ ∈ b.points
  /-- A place has one number. -/
  keyed : (b.byPlace.map Prod.fst).Nodup
  /-- A number has one place. -/
  numbered : b.numbers.Nodup
  /-- The numbers were all given out. -/
  range : ∀ id ∈ b.numbers, 1 ≤ id ∧ id ≤ b.lastId

/-- The tables agree, and they know no unit but that of a started program. -/
structure Coherent (b : Breakpoints) (s : State) : Prop extends Agree b s where
  files : b.files = [] ∨ s.started = true ∧ b.files = [(s.program.url, [⟨0⟩])]
  fresh : s.started = false → b.points = []

theorem idAt_eq_none_iff {b : Breakpoints} {unit : UnitId} {offset : Nat} :
    b.idAt unit offset = none ↔ (unit, offset) ∉ b.byPlace.map Prod.fst := by
  simp only [Breakpoints.idAt, Option.map_eq_none_iff, List.find?_eq_none, beq_iff_eq,
    List.mem_map, not_exists, not_and]

theorem mem_byPlace_of_idAt {b : Breakpoints} {unit : UnitId} {offset id : Nat}
    (h : b.idAt unit offset = some id) : ((unit, offset), id) ∈ b.byPlace := by
  obtain ⟨⟨place, number⟩, hfind, rfl⟩ := Option.map_eq_some_iff.1 h
  have hplace : place = (unit, offset) := by simpa using List.find?_some hfind
  rw [← hplace]
  exact List.mem_of_find?_eq_some hfind

/-- Registering makes the module of the program known, which is the only unit at the top. -/
theorem registerAll_cases {b : Breakpoints} {s : State}
    (h : b.files = [] ∨ b.files = [(s.program.url, [⟨0⟩])]) :
    b.registerAll s = b ∨ b.registerAll s = { b with files := [(s.program.url, [⟨0⟩])] } := by
  have htop : Engine.topUnits s = if s.program.units.isEmpty then [] else [⟨0⟩] := rfl
  rw [Breakpoints.registerAll, htop]
  split
  · exact Or.inl rfl
  · have hinfo : Engine.unitInfo? s ⟨0⟩ =
        (s.program.unit? ⟨0⟩).map fun unit => ⟨s.program.url, unit.start, unit.lineCount⟩ := rfl
    rw [List.foldl_cons, List.foldl_nil, Breakpoints.registerUnit, hinfo]
    cases s.program.unit? ⟨0⟩ with
    | none => exact Or.inl rfl
    | some unit =>
        refine Or.inr ?_
        rcases h with hfiles | hfiles <;>
          simp [hfiles, Breakpoints.insertFile, Breakpoints.insertUnit]

theorem setBreakpoint_program (s : State) (unit : UnitId) (offset : Nat) :
    (Engine.setBreakpoint s unit offset).program = s.program := by
  obtain ⟨places, hplaces⟩ := State.setBreakpoint_eq s unit offset
  rw [hplaces]
  rfl

theorem setBreakpoint_started (s : State) (unit : UnitId) (offset : Nat) :
    (Engine.setBreakpoint s unit offset).started = s.started := by
  obtain ⟨places, hplaces⟩ := State.setBreakpoint_eq s unit offset
  rw [hplaces]
  rfl

namespace Agree

variable {b : Breakpoints} {s t : State}

/-- What the tables say does not depend on how far the program has run. -/
theorem of_kept (h : Agree b s) (hplaces : t.breakpoints = s.breakpoints) : Agree b t where
  places place := by rw [hplaces]; exact h.places place
  inverse := h.inverse
  keyed := h.keyed
  numbered := h.numbered
  range := h.range

/-- Nor does it depend on the known units. -/
theorem of_registered (h : Agree b s) (files : List (String × List UnitId)) :
    Agree { b with files } s :=
  ⟨h.places, h.inverse, h.keyed, h.numbered, h.range⟩

/-- A breakpoint that is set where there was none gets a number of its own. -/
theorem of_installed (h : Agree b s) {k : Candidate} (hnew : b.idAt k.unit k.offset = none) :
    Agree
      { b with
        points := ⟨b.lastId + 1, k.unit, k.offset⟩ :: b.points
        byPlace := ((k.unit, k.offset), b.lastId + 1) :: b.byPlace
        lastId := b.lastId + 1 }
      (Engine.setBreakpoint s k.unit k.offset) := by
  have hkey := idAt_eq_none_iff.1 hnew
  have hfree : ¬s.hasBreakpoint k.unit k.offset = true := fun hset =>
    hkey ((h.places _).1 (List.contains_iff_mem.1 hset))
  have hset : Engine.setBreakpoint s k.unit k.offset =
      { s with breakpoints := (k.unit, k.offset) :: s.breakpoints } := if_neg hfree
  rw [hset]
  refine
    { places := fun place => ?_, inverse := fun id unit offset => ?_
      keyed := List.nodup_cons.2 ⟨hkey, h.keyed⟩
      numbered := List.nodup_cons.2 ⟨fun hold => ?_, h.numbered⟩
      range := fun id hid => ?_ }
  · simp only [List.mem_cons, List.map_cons, h.places place]
  · simp only [List.mem_cons, h.inverse id unit offset, Prod.mk.injEq, Breakpoint.mk.injEq]
    refine or_congr_left ?_
    constructor
    · rintro ⟨⟨rfl, rfl⟩, rfl⟩
      exact ⟨rfl, rfl, rfl⟩
    · rintro ⟨rfl, rfl, rfl⟩
      exact ⟨⟨rfl, rfl⟩, rfl⟩
  · have hrange : b.lastId + 1 ≤ b.lastId := (h.range _ hold).2
    omega
  · rcases List.mem_cons.1 hid with rfl | hid
    · exact ⟨Nat.le_add_left 1 b.lastId, Nat.le_refl _⟩
    · exact ⟨(h.range id hid).1, Nat.le_succ_of_le (h.range id hid).2⟩

theorem of_removed (h : Agree b s) {p : Breakpoint} (hp : p ∈ b.points) :
    Agree
      { b with
        points := b.points.filter fun q => q.id != p.id
        byPlace := b.byPlace.filter fun entry => entry.1 != (p.unit, p.offset) }
      (Engine.clearBreakpoint s p.unit p.offset) where
  places place := by
    change place ∈ s.breakpoints.filter _ ↔ _
    simp only [List.mem_filter, h.places place, List.mem_map]
    constructor
    · rintro ⟨⟨entry, hentry, rfl⟩, hother⟩
      exact ⟨entry, ⟨hentry, hother⟩, rfl⟩
    · rintro ⟨entry, ⟨hentry, hother⟩, rfl⟩
      exact ⟨⟨entry, hentry, rfl⟩, hother⟩
  inverse id unit offset := by
    have hentry := (h.inverse p.id p.unit p.offset).2 hp
    simp only [List.mem_filter, h.inverse id unit offset, bne_iff_ne, ne_eq]
    refine and_congr_right fun hpoint => not_congr ⟨fun hplace => ?_, fun hid => ?_⟩
    · have hother := (h.inverse id unit offset).2 hpoint
      exact congrArg Prod.snd (List.inj_on_of_nodup_map h.keyed hother hentry hplace)
    · have hsame := List.inj_on_of_nodup_map h.numbered hpoint hp hid
      exact Prod.ext (congrArg Breakpoint.unit hsame) (congrArg Breakpoint.offset hsame)
  keyed := h.keyed.sublist (List.filter_sublist.map Prod.fst)
  numbered := h.numbered.sublist (List.filter_sublist.map _)
  range id hid := h.range id ((List.filter_sublist.map _).subset hid)

end Agree

namespace Coherent

variable {b b' : Breakpoints} {s s' : State}

theorem initial (library : String → Option String) (program : Program) :
    Coherent .initial (State.initial library program) where
  places _ := Iff.rfl
  inverse _ _ _ := iff_of_false List.not_mem_nil List.not_mem_nil
  keyed := List.nodup_nil
  numbered := List.nodup_nil
  range _ hid := absurd hid List.not_mem_nil
  files := Or.inl rfl
  fresh _ := rfl

/-- Only in a started program a place can be found for a breakpoint. -/
theorem of_resolve (h : Coherent b s) {path : String} {line column : Nat} {k : Candidate}
    (hresolve : b.resolve s path line column = some k) :
    s.started = true ∧ b.files = [(s.program.url, [⟨0⟩])] := by
  refine h.files.resolve_left fun hnone => ?_
  have hunits : b.unitsOf? path = none := by rw [Breakpoints.unitsOf?, hnone]; rfl
  rw [Breakpoints.resolve, Breakpoints.candidates, hunits] at hresolve
  cases hresolve

theorem byPlace_of_fresh (h : Coherent b s) (hfresh : s.started = false) : b.byPlace = [] := by
  refine List.eq_nil_iff_forall_not_mem.2 ?_
  rintro ⟨⟨unit, offset⟩, id⟩ hentry
  have hpoint := (h.inverse id unit offset).1 hentry
  rw [h.fresh hfresh] at hpoint
  exact List.not_mem_nil hpoint

theorem of_kept (h : Coherent b s) (hplaces : s'.breakpoints = s.breakpoints)
    (hprogram : s'.program = s.program) (hstarted : s.started = true → s'.started = true) :
    Coherent b s' where
  toAgree := h.toAgree.of_kept hplaces
  files := by rw [hprogram]; exact h.files.imp_right fun ⟨hold, hfiles⟩ => ⟨hstarted hold, hfiles⟩
  fresh hfresh := by
    cases hold : s.started with
    | false => exact h.fresh hold
    | true => cases (hstarted hold).symm.trans hfresh

theorem of_registered (h : Coherent b s) (hstarted : s.started = true) :
    Coherent (b.registerAll s) s := by
  rcases registerAll_cases (h.files.imp_right And.right) with hsame | hknown
  · rw [hsame]
    exact h
  · rw [hknown]
    exact
      { h.toAgree.of_registered [(s.program.url, [⟨0⟩])] with
        files := Or.inr ⟨hstarted, rfl⟩, fresh := h.fresh }

/-- Behind the start no program can be chosen, and before it there is no breakpoint to lose. -/
theorem of_selected (h : Coherent b s) (path : String) : Coherent b (s.selectProgram path) := by
  unfold State.selectProgram
  split
  · exact h
  · rename_i hopen
    have hfresh : s.started = false := by
      simp only [not_or, Bool.not_eq_true] at hopen
      exact hopen.2
    split
    · rename_i program _
      exact
        { places := fun place => by simp [h.byPlace_of_fresh hfresh]
          inverse := h.inverse, keyed := h.keyed, numbered := h.numbered, range := h.range
          files := Or.inl (h.files.resolve_right fun hknown => by simp [hfresh] at hknown)
          fresh := fun _ => h.fresh hfresh }
    · exact h

theorem of_installed (h : Coherent b s) {path : String} {line column : Nat} {k : Candidate}
    (hresolve : b.resolve s path line column = some k) (hnew : b.idAt k.unit k.offset = none) :
    Coherent
      { b with
        points := ⟨b.lastId + 1, k.unit, k.offset⟩ :: b.points
        byPlace := ((k.unit, k.offset), b.lastId + 1) :: b.byPlace
        lastId := b.lastId + 1 }
      (Engine.setBreakpoint s k.unit k.offset) := by
  obtain ⟨hstarted, hfiles⟩ := h.of_resolve hresolve
  refine { h.toAgree.of_installed hnew with files := .inr ?_, fresh := fun hfresh => ?_ }
  · rw [setBreakpoint_started, setBreakpoint_program]
    exact ⟨hstarted, hfiles⟩
  · rw [setBreakpoint_started, hstarted] at hfresh
    cases hfresh

theorem of_removed (h : Coherent b s) {p : Breakpoint} (hp : p ∈ b.points) :
    Coherent
      { b with
        points := b.points.filter fun q => q.id != p.id
        byPlace := b.byPlace.filter fun entry => entry.1 != (p.unit, p.offset) }
      (Engine.clearBreakpoint s p.unit p.offset) where
  toAgree := h.toAgree.of_removed hp
  files := h.files
  fresh hfresh := by
    change b.points.filter _ = []
    rw [h.fresh hfresh]
    rfl

/-- The tables agree behind every change. -/
theorem change (h : Coherent b s) (hchange : Change b s b' s') : Coherent b' s' := by
  cases hchange with
  | kept hplaces hprogram hstarted => exact h.of_kept hplaces hprogram hstarted
  | registered hplaces hprogram hstarted =>
      exact (h.of_kept hplaces hprogram fun _ => hstarted).of_registered hstarted
  | selected path => exact h.of_selected path
  | installed hresolve hnew => exact h.of_installed hresolve hnew
  | removed hp => exact h.of_removed hp

end Coherent

/-! ## Numbers and places on the way -/

section

variable {b b' : Breakpoints} {s s' : State}

/-- A change gives out the next number or none. -/
theorem Change.numbers_eq (h : Change b s b' s') (hcoherent : Coherent b s) :
    newNumbers b b' = [] ∧ b'.lastId = b.lastId ∨
      newNumbers b b' = [b.lastId + 1] ∧ b'.lastId = b.lastId + 1 := by
  cases h with
  | kept => exact Or.inl ⟨newNumbers_self b, rfl⟩
  | registered =>
      have hfiles : ∀ files, newNumbers b { b with files } = [] := fun _ => newNumbers_self b
      rename_i hplaces hprogram hstarted
      rcases registerAll_cases (b := b) (s := s')
        (by rw [hprogram]; exact hcoherent.files.imp_right And.right) with hsame | hknown
      · rw [hsame]
        exact Or.inl ⟨newNumbers_self b, rfl⟩
      · rw [hknown]
        exact Or.inl ⟨hfiles _, rfl⟩
  | selected => exact Or.inl ⟨newNumbers_self b, rfl⟩
  | installed =>
      refine Or.inr ⟨?_, rfl⟩
      have hnew : b.lastId + 1 ∉ b.numbers := fun hold => by
        have hrange := (hcoherent.range _ hold).2
        omega
      have hold : newNumbers b b = [] := newNumbers_self b
      rw [newNumbers] at hold
      change ((b.lastId + 1) :: b.numbers).filter _ = _
      rw [List.filter_cons_of_pos (by simpa using hnew), hold]
  | removed =>
      refine Or.inl ⟨?_, rfl⟩
      refine List.filter_eq_nil_iff.2 fun id hid => ?_
      have hmem : id ∈ b.numbers := (List.filter_sublist.map _).subset hid
      simpa using hmem

/-- A breakpoint that has a number given out before was there before. -/
theorem Change.older (h : Change b s b' s') (hcoherent : Coherent b s) {p : Breakpoint}
    (hp : p ∈ b'.points) (hid : p.id ≤ b.lastId) : p ∈ b.points := by
  cases h with
  | kept => exact hp
  | registered hplaces hprogram hstarted =>
      rcases registerAll_cases (b := b) (s := s')
        (by rw [hprogram]; exact hcoherent.files.imp_right And.right) with hsame | hknown
      · rwa [hsame] at hp
      · rwa [hknown] at hp
  | selected => exact hp
  | installed =>
      rcases List.mem_cons.1 hp with rfl | hp
      · have hlast : b.lastId + 1 ≤ b.lastId := hid
        omega
      · exact hp
  | removed => exact (List.mem_filter.1 hp).1

theorem candidatesIn_congr (hprogram : s'.program = s.program) (line column depth : Nat) :
    Breakpoints.candidatesIn s' line column depth =
      Breakpoints.candidatesIn s line column depth := by
  have hoffsets : ∀ unit, Engine.breakpointOffsets s' unit line column =
      Engine.breakpointOffsets s unit line column := fun unit => by
    change ((s'.program.unit? unit).map _).getD [] = ((s.program.unit? unit).map _).getD []
    rw [hprogram]
  have hlocation : ∀ unit offset, Engine.location? s' unit offset = Engine.location? s unit offset :=
    fun unit offset => by
      change (s'.program.instruction? unit offset).map _ =
        (s.program.instruction? unit offset).map _
      rw [hprogram]
  have hchildren : ∀ unit, Engine.childUnits s' unit = Engine.childUnits s unit := fun unit => by
    change ((s'.program.unit? unit).map _).getD [] = ((s.program.unit? unit).map _).getD []
    rw [hprogram]
  induction depth with
  | zero => rfl
  | succ depth ih =>
      funext unit
      simp only [Breakpoints.candidatesIn, Breakpoints.candidatesOf, hoffsets, hlocation, hchildren,
        ih]

/-- Where a breakpoint goes is settled by the known units and the program. -/
theorem resolve_congr (hfiles : b'.files = b.files) (hprogram : s'.program = s.program)
    (path : String) (line column : Nat) :
    b'.resolve s' path line column = b.resolve s path line column := by
  have hunits : b'.unitsOf? path = b.unitsOf? path := by
    rw [Breakpoints.unitsOf?, hfiles, ← Breakpoints.unitsOf?]
  have hcount : Engine.unitCount s' = Engine.unitCount s := by
    change s'.program.units.length = s.program.units.length
    rw [hprogram]
  rw [Breakpoints.resolve, Breakpoints.candidates, hunits, hcount,
    candidatesIn_congr hprogram, ← Breakpoints.candidates, ← Breakpoints.resolve]

/-- A position that has a place for a breakpoint keeps it. -/
theorem Change.resolve_eq (h : Change b s b' s') (hcoherent : Coherent b s) {path : String}
    {line column : Nat} {k : Candidate} (hresolve : b.resolve s path line column = some k) :
    b'.resolve s' path line column = some k := by
  obtain ⟨hstarted, hfiles⟩ := hcoherent.of_resolve hresolve
  rw [← hresolve]
  cases h with
  | kept hplaces hprogram => exact resolve_congr rfl hprogram path line column
  | registered hplaces hprogram =>
      rw [← hprogram] at hfiles
      refine resolve_congr ?_ hprogram path line column
      rcases registerAll_cases (Or.inr hfiles) with hsame | hknown
      · rw [hsame]
      · rw [hknown]
        exact hfiles.symm
  | selected path' =>
      refine resolve_congr rfl ?_ path line column
      rw [State.selectProgram, if_pos (Or.inr hstarted)]
  | installed hplace hnew =>
      exact resolve_congr (b := b) rfl (setBreakpoint_program s _ _) path line column
  | @removed p hp =>
      have hprogram : (Engine.clearBreakpoint s p.unit p.offset).program = s.program := rfl
      exact resolve_congr (b := b) rfl hprogram path line column

end

namespace Leads

variable {c c' c'' : Context} {s s' s'' : State} {ids more : List Nat}

theorem single (h : Move c s c' s') :
    Leads c s c' s' (newNumbers c.breakpoints c'.breakpoints) := .move .stay h

theorem trans (h : Leads c s c' s' ids) (h' : Leads c' s' c'' s'' more) :
    Leads c s c'' s'' (ids ++ more) := by
  induction h' with
  | stay => rwa [List.append_nil]
  | move h' hmove ih =>
      rw [← List.append_assoc]
      exact .move ih hmove

/-- A move that leads on, in front. -/
theorem cons (hmove : Move c s c' s') (h : Leads c' s' c'' s'' ids) :
    Leads c s c'' s'' (newNumbers c.breakpoints c'.breakpoints ++ ids) :=
  (single hmove).trans h

theorem coherent (h : Leads c s c' s' ids) (hcoherent : Coherent c.breakpoints s) :
    Coherent c'.breakpoints s' := by
  induction h with
  | stay => exact hcoherent
  | move _ hmove ih => exact ih.change hmove.change

/-- Numbers are given out one behind the other. -/
theorem numbers_eq (h : Leads c s c' s' ids) (hcoherent : Coherent c.breakpoints s) :
    c'.breakpoints.lastId = c.breakpoints.lastId + ids.length ∧
      ids = List.range' (c.breakpoints.lastId + 1) ids.length := by
  induction h with
  | stay => exact ⟨rfl, rfl⟩
  | move h hmove ih =>
      obtain ⟨hlast, hids⟩ := ih
      rcases hmove.change.numbers_eq (h.coherent hcoherent) with ⟨hnone, hsame⟩ | ⟨hone, hnext⟩
      · rw [hnone, List.append_nil, hsame]
        exact ⟨hlast, hids⟩
      · rw [hone, hnext, List.length_append, List.length_singleton, ← List.range'_append_1, ← hids,
          hlast]
        refine ⟨rfl, ?_⟩
        rw [List.range'_one]
        congr 2
        omega

theorem nodup (h : Leads c s c' s' ids) (hcoherent : Coherent c.breakpoints s) : ids.Nodup := by
  rw [(h.numbers_eq hcoherent).2]
  exact List.nodup_range'

/-- A breakpoint that has a number given out before was there before. -/
theorem older (h : Leads c s c' s' ids) (hcoherent : Coherent c.breakpoints s) {p : Breakpoint}
    (hp : p ∈ c'.breakpoints.points) (hid : p.id ≤ c.breakpoints.lastId) :
    p ∈ c.breakpoints.points := by
  induction h with
  | stay => exact hp
  | move h hmove ih =>
      have hlast := (h.numbers_eq hcoherent).1
      exact ih (hmove.change.older (h.coherent hcoherent) hp (by omega))

theorem resolve_eq (h : Leads c s c' s' ids) (hcoherent : Coherent c.breakpoints s) {path : String}
    {line column : Nat} {k : Candidate}
    (hresolve : c.breakpoints.resolve s path line column = some k) :
    c'.breakpoints.resolve s' path line column = some k := by
  induction h with
  | stay => exact hresolve
  | move h hmove ih => exact hmove.change.resolve_eq (h.coherent hcoherent) ih

end Leads

/-! ## Setting a breakpoint -/

section

variable {c c' : Context} {s s' : State} {path : String} {line column : Nat} {id : Int}

/-- What comes of setting a breakpoint: either there is no place for it, and all stays, or the
number that is told is that of the place. -/
theorem set_cases (b : Breakpoints) (s : State) (path : String) (line column : Nat) :
    b.set s path line column = (b, s, Breakpoints.unresolvedId) ∨
      ∃ k number, b.resolve s path line column = some k ∧
        (b.set s path line column).2.2 = Int.ofNat number ∧
        (b.set s path line column).1.idAt k.unit k.offset = some number := by
  cases hresolve : b.resolve s path line column with
  | none =>
      refine Or.inl ?_
      rw [Breakpoints.set, hresolve]
  | some k =>
      obtain ⟨number, hnumber, hid⟩ := Option.map_eq_some_iff.1 (Breakpoints.idAt_set hresolve)
      exact Or.inr ⟨k, number, rfl, hid.symm, hnumber⟩

/-- A breakpoint that could not be set changed nothing. -/
theorem perform_unresolved
    (h : Agent.perform c s (.setBreakpoint path line column) =
      (c', s', some (.breakpointSet Breakpoints.unresolvedId ⟨line, column⟩), .serve)) :
    c' = c ∧ s' = s := by
  simp only [Agent.perform, Prod.mk.injEq, Option.some.injEq, DebuggerMessage.breakpointSet.injEq,
    and_true] at h
  obtain ⟨hcontext, hengine, hid⟩ := h
  rcases set_cases c.breakpoints s path line column with hnone | ⟨k, number, -, hnumber, -⟩
  · rw [hnone] at hcontext hengine
    exact ⟨hcontext.symm, hengine.symm⟩
  · cases hnumber.symm.trans hid

/-- A position keeps the number of its breakpoint for as long as the breakpoint is there. -/
theorem Leads.set_again {c₁ : Context} {s₁ : State} {ids : List Nat}
    (hcoherent : Coherent c.breakpoints s)
    (hset : Agent.perform c s (.setBreakpoint path line column) =
      (c₁, s₁, some (.breakpointSet id ⟨line, column⟩), .serve))
    (hid : id ≠ Breakpoints.unresolvedId) (h : Leads c₁ s₁ c' s' ids)
    (hlive : ∃ p ∈ c'.breakpoints.points, (p.id : Int) = id) :
    Agent.perform c' s' (.setBreakpoint path line column) =
      (c', s', some (.breakpointSet id ⟨line, column⟩), .serve) := by
  have hmove : Leads c s c₁ s₁ _ := .single (.request hset)
  have hbetween := hmove.coherent hcoherent
  have hnow := h.coherent hbetween
  simp only [Agent.perform, Prod.mk.injEq, Option.some.injEq, DebuggerMessage.breakpointSet.injEq,
    and_true] at hset
  obtain ⟨rfl, rfl, hnumber⟩ := hset
  rcases set_cases c.breakpoints s path line column with hnone | ⟨k, number, hresolve, htold, hplace⟩
  · rw [hnone] at hnumber
    exact absurd hnumber.symm hid
  obtain rfl : Int.ofNat number = id := htold.symm.trans hnumber
  obtain ⟨p, hp, hpid⟩ := hlive
  obtain rfl : p.id = number := by simpa using hpid
  -- the breakpoint that has the number now is the one that was set
  have hpoint := (hbetween.inverse _ _ _).1 (mem_byPlace_of_idAt hplace)
  have hold := h.older hbetween hp (hbetween.range _ (List.mem_map.2 ⟨_, hpoint, rfl⟩)).2
  have hsame := List.inj_on_of_nodup_map hbetween.numbered hold hpoint rfl
  have hentry : ((k.unit, k.offset), p.id) ∈ c'.breakpoints.byPlace := by
    refine (hnow.inverse _ _ _).2 ?_
    rw [← hsame]
    exact hp
  have hthere : c'.breakpoints.idAt k.unit k.offset = some p.id := by
    cases hat : c'.breakpoints.idAt k.unit k.offset with
    | none => exact absurd (List.mem_map.2 ⟨_, hentry, rfl⟩) (idAt_eq_none_iff.1 hat)
    | some other =>
        have hother := mem_byPlace_of_idAt hat
        have heq := List.inj_on_of_nodup_map hnow.keyed hother hentry rfl
        exact congrArg some (congrArg Prod.snd heq)
  have hagain := h.resolve_eq hbetween (hmove.resolve_eq hcoherent hresolve)
  simp only [Agent.perform, Breakpoints.set, hagain, hthere]
  rfl

end

/-! ## Announcements -/

/-- The machine stands at an installed breakpoint that has the number. -/
def StandsAt (c : Context) (s : State) (id : Int) : Prop :=
  ∃ p ∈ c.breakpoints.points, (p.id : Int) = id ∧ 0 < id ∧
    s.hasBreakpoint p.unit p.offset = true ∧
    ∃ top below, s.stack = top :: below ∧ top.unit = p.unit ∧ top.pc = p.offset

/-- The machine stands at a breakpoint in the frame. -/
def BreaksIn (s : State) (frame : FrameId) (offset : Nat) : Prop :=
  ∃ top below, s.stack = top :: below ∧ top.id = frame ∧ top.pc = offset ∧
    s.hasBreakpoint top.unit top.pc = true

/-- Only a breakpoint stops for a breakpoint. -/
theorem event_of_breakpoint {σ : Type} [Engine σ] {stepper : Stepper} {engine : σ} {event : Event}
    {frame : FrameId} {offset : Nat}
    (h : (stepper.onEvent engine event).2 = some ⟨frame, .breakpoint offset⟩) :
    event = .breakpoint frame offset := by
  cases event with
  | finished => cases h
  | enterFrame =>
      rw [Stepper.onEvent] at h
      split at h
      · cases h
      · split at h <;> cases h
  | step =>
      rw [Stepper.onEvent] at h
      split at h
      · cases h
      · split at h <;> cases h
  | pop =>
      rw [Stepper.onEvent] at h
      split at h <;> cases h
  | breakpoint =>
      cases h
      rfl

/-- What is announced for a breakpoint is the number of the one where the machine stands. -/
theorem standsAt_of_announcement {c : Context} {s : State} {stop : Stop} {id : Int}
    (hcoherent : Coherent c.breakpoints s)
    (hstop : ∀ offset, stop.reason = .breakpoint offset → BreaksIn s stop.frame offset)
    (h : Agent.announcement c s stop = .stopOnBreakpoint id) : StandsAt c s id := by
  cases hreason : stop.reason with
  | loaded =>
      simp only [Agent.announcement, hreason] at h
      cases h
  | step =>
      simp only [Agent.announcement, hreason] at h
      cases h
  | breakpoint offset =>
      obtain ⟨top, below, hstack, hframe, rfl, harmed⟩ := hstop offset hreason
      have hunit : (Engine.frame? s stop.frame).bind (·.unit) = some top.unit := by
        have hinfo : Engine.frame? s stop.frame = State.frameInfo? s.program stop.frame s.stack := rfl
        rw [hinfo, hstack, State.frameInfo?, if_pos hframe]
        rfl
      simp only [Agent.announcement, hreason, Context.breakpointId, hunit, Option.bind_some] at h
      have hkey := (hcoherent.places _).1 (List.contains_iff_mem.1 harmed)
      cases hid : c.breakpoints.idAt top.unit top.pc with
      | none => exact absurd hkey (idAt_eq_none_iff.1 hid)
      | some number =>
          rw [hid] at h
          obtain rfl : (number : Int) = id := DebuggerMessage.stopOnBreakpoint.inj h
          have hpoint := (hcoherent.inverse _ _ _).1 (mem_byPlace_of_idAt hid)
          have hrange := hcoherent.range number (List.mem_map.2 ⟨_, hpoint, rfl⟩)
          exact ⟨_, hpoint, rfl, by omega, harmed, top, below, hstack, rfl, rfl⟩

/-! ## Runs -/

/-- A run is made of moves, and stops for a breakpoint where there is one. -/
theorem leads_of_runWithin {fuel : Nat} {c c' : Context} {s s' : State} {stop : Option Stop}
    (h : c.runWithin fuel s = some (c', s', stop)) :
    (∃ ids, Leads c s c' s' ids) ∧
      ∀ frame offset, stop = some ⟨frame, .breakpoint offset⟩ → BreaksIn s' frame offset := by
  refine runWithin_induct (P := fun c s => (∃ ids, Leads c s c' s' ids) ∧
      ∀ frame offset, stop = some ⟨frame, .breakpoint offset⟩ → BreaksIn s' frame offset)
    (fun c s next hadvance ih => ?_) (fun s hnone hadvance => ?_)
    (fun c d s next event _ hadvance hevent ih => ?_)
    (fun c s event reason _ hsome hadvance hevent => ?_) h
  · obtain ⟨⟨ids, hleads⟩, hstop⟩ := ih
    exact ⟨⟨_, .cons (.quiet hadvance) hleads⟩, hstop⟩
  · obtain ⟨rfl, -⟩ := (State.step_of_advance hadvance).finish_inv
    exact ⟨⟨_, .stay⟩, fun _ _ hstop => by cases hnone.symm.trans hstop⟩
  · obtain ⟨⟨ids, hleads⟩, hstop⟩ := ih
    exact ⟨⟨_, .cons (.event hadvance hevent) hleads⟩, hstop⟩
  · refine ⟨⟨_, .single (.event hadvance hevent)⟩, fun frame offset hreason => ?_⟩
    obtain ⟨-, hdecision⟩ := stepper_of_onEvent hevent
    obtain rfl := event_of_breakpoint (hdecision.symm.trans (hsome.symm.trans hreason))
    exact (State.step_of_advance hadvance).stands_of_breakpoint

/-- So is the run of a program that no front end watches any more. -/
theorem leads_of_runToEnd {fuel : Nat} {c c' : Context} {s s' : State}
    (h : Agent.runToEnd fuel c s = some (c', s')) : ∃ ids, Leads c s c' s' ids := by
  induction fuel generalizing c s with
  | zero => cases h
  | succ fuel ih =>
      rw [Agent.runToEnd] at h
      rcases hadvance : Engine.advance c.hooks s with ⟨next, _ | event⟩
      · rw [hadvance] at h
        obtain ⟨ids, hleads⟩ := ih h
        exact ⟨_, .cons (.quiet hadvance) hleads⟩
      · rw [hadvance] at h
        by_cases hend : event = .finished
        · subst hend
          obtain ⟨rfl, rfl⟩ : c = c' ∧ next = s' := by simpa using h
          obtain ⟨rfl, -⟩ := (State.step_of_advance hadvance).finish_inv
          exact ⟨_, .stay⟩
        · rcases hevent : c.onEvent next event with ⟨d, decision⟩
          have hmove : Move c s d next := .event hadvance hevent
          simp only [hevent] at h
          cases decision with
          | none =>
              obtain ⟨ids, hleads⟩ := ih h
              exact ⟨_, .cons hmove hleads⟩
          | some reason =>
              obtain ⟨ids, hleads⟩ := ih h
              exact ⟨_, .cons hmove (.cons (.resume .run) hleads)⟩

/-! ## Agents -/

/-- A message that announces no breakpoint. -/
def IsQuiet (message : DebuggerMessage) : Prop := ∀ id, message ≠ .stopOnBreakpoint id

theorem isQuiet_answer {α : Type} {f : α → DebuggerMessage} (hf : ∀ x, IsQuiet (f x))
    (result : Except QueryError α) : IsQuiet (Agent.answer (result.map f)) := by
  cases result with
  | error e => exact nofun
  | ok x => exact hf x

/-- An answer announces no breakpoint. -/
theorem isQuiet_reply {c c' : Context} {s s' : State} {message : HostMessage}
    {reply : DebuggerMessage} {outcome : Outcome}
    (h : Agent.perform c s message = (c', s', some reply, outcome)) : IsQuiet reply := by
  have hreply : (Agent.perform c s message).2.2.1 = some reply := congrArg (·.2.2.1) h
  clear h
  cases message with
  | getBreakpointsForLine | setBreakpoint | removeBreakpoint =>
      obtain rfl := Option.some.inj hreply
      intro id h
      cases h
  | getStack | getScopes =>
      obtain rfl := Option.some.inj hreply
      exact isQuiet_answer (fun _ _ hsame => by cases hsame) _
  | getVariables =>
      simp only [Agent.perform] at hreply
      split at hreply <;>
      · obtain rfl := Option.some.inj hreply
        intro id h
        cases h
  | setVariable =>
      simp only [Agent.perform] at hreply
      split at hreply <;>
      · obtain rfl := Option.some.inj hreply
        intro id h
        cases h
  | _ => cases hreply

theorem send_context {σ : Type} (a : Agent σ) (message : DebuggerMessage) :
    (a.send message).1.context = a.context ∧ (a.send message).1.engine = a.engine := by
  unfold Agent.send
  split
  · exact ⟨rfl, rfl⟩
  · split <;> exact ⟨rfl, rfl⟩

theorem eq_of_mem_send {σ : Type} {a : Agent σ} {message other : DebuggerMessage}
    (h : other ∈ (a.send message).2) : other = message := by
  unfold Agent.send at h
  split at h
  · cases h
  · split at h
    · exact List.mem_singleton.1 h
    · cases h
    · exact List.mem_singleton.1 h

/-- The agent `b` is where moves lead from `a`. -/
def LeadsTo (a b : Agent State) : Prop := ∃ ids, Leads a.context a.engine b.context b.engine ids

/-- An agent gets from `a` to `b` by moves, and what it announces for a breakpoint is the number of
the one where the machine stands in the end. -/
structure Answers (a b : Agent State) (sent : List DebuggerMessage) : Prop where
  leads : LeadsTo a b
  announced : ∀ id, .stopOnBreakpoint id ∈ sent → StandsAt b.context b.engine id

namespace LeadsTo

variable {a b d : Agent State}

theorem of_eq (hcontext : b.context = a.context) (hengine : b.engine = a.engine) : LeadsTo a b := by
  rw [LeadsTo, hcontext, hengine]
  exact ⟨[], .stay⟩

theorem trans (h : LeadsTo a b) (h' : LeadsTo b d) : LeadsTo a d := by
  obtain ⟨ids, hids⟩ := h
  obtain ⟨others, hothers⟩ := h'
  exact ⟨_, hids.trans hothers⟩

theorem coherent (h : LeadsTo a b) (hcoherent : Coherent a.context.breakpoints a.engine) :
    Coherent b.context.breakpoints b.engine := by
  obtain ⟨ids, hids⟩ := h
  exact hids.coherent hcoherent

theorem send (a : Agent State) (message : DebuggerMessage) : LeadsTo a (a.send message).1 :=
  of_eq (send_context a message).1 (send_context a message).2

theorem leave (a : Agent State) (mode : RunMode) : LeadsTo a (a.leave mode) := by
  unfold Agent.leave
  split
  · exact ⟨_, .single (.resume mode)⟩
  · exact of_eq rfl rfl
  · exact of_eq rfl rfl

theorem hangUp {fuel : Nat} (h : a.hangUp fuel = some b) : LeadsTo a b := by
  have hleave := leave a .run
  unfold Agent.hangUp at h
  split at h
  · obtain rfl := Option.some.inj h
    exact of_eq rfl rfl
  all_goals
    obtain ⟨⟨c, s⟩, hrun, rfl⟩ := Option.map_eq_some_iff.1 h
    rw [← (leave_fst a .run).1] at hrun
    exact hleave.trans (leads_of_runToEnd hrun)

end LeadsTo

namespace Answers

variable {a b d : Agent State} {sent : List DebuggerMessage} {fuel : Nat}

theorem behind (hfirst : LeadsTo a b) (h : Answers b d sent) : Answers a d sent :=
  ⟨hfirst.trans h.leads, h.announced⟩

/-- A message that announces no breakpoint is sent. -/
theorem send (a : Agent State) {message : DebuggerMessage} (hquiet : IsQuiet message) :
    Answers a (a.send message).1 (a.send message).2 :=
  ⟨.send a message, fun id hid => absurd (eq_of_mem_send hid).symm (hquiet id)⟩

/-- A run to the next stop, or to the end. -/
theorem go (hcoherent : Coherent a.context.breakpoints a.engine) {mode : RunMode}
    (h : a.go fuel mode = some (b, sent)) : Answers a b sent := by
  obtain ⟨stop, hrun, hstop⟩ := Agent.go_inv h
  have hleave := LeadsTo.leave a mode
  rw [← (leave_fst a mode).1] at hrun
  obtain ⟨hleads, hbreaks⟩ := leads_of_runWithin hrun
  have hlast : LeadsTo a b := hleave.trans hleads
  refine ⟨hlast, fun id hid => ?_⟩
  rcases hstop with ⟨-, -, rfl⟩ | ⟨reason, rfl, -, rfl | rfl⟩
  · cases hid
  · cases hid
  · refine standsAt_of_announcement (hlast.coherent hcoherent) ?_ (List.mem_singleton.1 hid).symm
    intro offset hreason
    exact hbreaks reason.frame offset (by rw [← hreason])

theorem receive (hcoherent : Coherent a.context.breakpoints a.engine) {message : HostMessage}
    (h : a.receive fuel message = some (b, sent)) : Answers a b sent := by
  rcases Agent.receive_inv h with ⟨mode, s, hchosen, hgo⟩ | ⟨reply, hperform, -, hsent⟩
  · have hfirst : LeadsTo a { a with engine := s } := by
      rcases hchosen with rfl | ⟨path, rfl⟩
      · exact .of_eq rfl rfl
      · have hperform : Agent.perform a.context a.engine (.loadProgram path) =
            (a.context, Engine.selectProgram a.engine path, none, .go .run) := rfl
        exact ⟨_, .single (.request hperform)⟩
    exact behind hfirst (go (hfirst.coherent hcoherent) hgo)
  · refine ⟨⟨_, .single (.request hperform)⟩, fun id hid => ?_⟩
    rcases hsent with rfl | ⟨answer, rfl, rfl⟩
    · cases hid
    · exact absurd (List.mem_singleton.1 hid).symm (isQuiet_reply hperform id)

end Answers

/-- An agent gets from `a` to `b` by moves, and what it announces for a breakpoint meanwhile is the
number of the one where the machine stands at that moment. -/
structure Serves (a b : Agent State) (sent : List DebuggerMessage) : Prop where
  leads : LeadsTo a b
  announced : ∀ id, .stopOnBreakpoint id ∈ sent → ∃ d : Agent State,
    LeadsTo a d ∧ LeadsTo d b ∧ StandsAt d.context d.engine id

theorem Answers.serves {a b : Agent State} {sent : List DebuggerMessage} (h : Answers a b sent) :
    Serves a b sent :=
  ⟨h.leads, fun id hid => ⟨b, h.leads, .of_eq rfl rfl, h.announced id hid⟩⟩

namespace Serves

variable {a b d : Agent State} {sent more : List DebuggerMessage} {fuel : Nat}

theorem silent (h : LeadsTo a b) : Serves a b [] := ⟨h, nofun⟩

theorem trans (h : Serves a b sent) (h' : Serves b d more) : Serves a d (sent ++ more) where
  leads := h.leads.trans h'.leads
  announced id hid := by
    rcases List.mem_append.1 hid with hid | hid
    · obtain ⟨e, hbefore, hbehind, hstands⟩ := h.announced id hid
      exact ⟨e, hbefore, hbehind.trans h'.leads, hstands⟩
    · obtain ⟨e, hbefore, hbehind, hstands⟩ := h'.announced id hid
      exact ⟨e, h.leads.trans hbefore, hbehind, hstands⟩

/-- Serving is a way of such moves. -/
theorem serving (hcoherent : Coherent a.context.breakpoints a.engine)
    (h : Agent.Serving fuel a sent b) : Serves a b sent := by
  induction h with
  | rest => exact silent (.of_eq rfl rfl)
  | @bytes a b sent decoder h ih =>
      have hdecoded : LeadsTo a { a with decoder } := .of_eq rfl rfl
      exact (silent hdecoded).trans (ih hcoherent)
  | message _ _ hreceive h ih =>
      have hfirst := Answers.receive hcoherent hreceive
      exact hfirst.serves.trans (ih (hfirst.leads.coherent hcoherent))
  | hangUp hhang h ih =>
      have hgone := LeadsTo.hangUp hhang
      exact (silent hgone).trans (ih (hgone.coherent hcoherent))

end Serves

/-- A whole life of an agent. -/
theorem serves_of_run {library : String → Option String} {program : Program} {fuel : Nat}
    {capacity : Option Nat} {reads : List Wire.Read} {b : Agent State}
    {sent : List DebuggerMessage}
    (h : Agent.run fuel (State.initial library program) capacity reads = some (b, sent)) :
    ∃ a : Agent State, a.context = .initial ∧ a.engine = State.initial library program ∧
      Serves a b sent := by
  obtain ⟨more, rfl, hserving⟩ := Agent.lives_of_run h
  have hcoherent := Coherent.initial library program
  have hgreeting : Serves ⟨State.initial library program, .initial, {}, .greeting, true, capacity⟩
      (Agent.start (State.initial library program) capacity).1
      (Agent.start (State.initial library program) capacity).2 :=
    (Answers.send _ fun _ hsame => by cases hsame).serves
  exact ⟨_, rfl, rfl, hgreeting.trans (.serving (hgreeting.leads.coherent hcoherent) hserving)⟩

/-! ## The tables in every state -/

/-- In every state that a debugger with its machine reaches, the two tables and the machine's places
agree, and no number was given out twice. A breakpoint that cannot be set changes nothing, and one
that is set again keeps its number. Whatever an agent announces for a breakpoint, when it serves a
message and in its whole life, is the number of a breakpoint that is installed where the machine
stands at that moment. -/
theorem breakpoint_tables_agree (library : String → Option String) (program : Program) :
    (∀ c s ids, Leads .initial (State.initial library program) c s ids →
      Agree c.breakpoints s ∧ ids.Nodup ∧ (∀ id ∈ c.breakpoints.numbers, id ∈ ids) ∧
      (∀ path line column c' s', Agent.perform c s (.setBreakpoint path line column) =
          (c', s', some (.breakpointSet (-1) ⟨line, column⟩), .serve) → c' = c ∧ s' = s) ∧
      (∀ path line column c₁ s₁ id, Agent.perform c s (.setBreakpoint path line column) =
          (c₁, s₁, some (.breakpointSet id ⟨line, column⟩), .serve) → id ≠ -1 →
        ∀ c' s' more, Leads c₁ s₁ c' s' more →
          (∃ p ∈ c'.breakpoints.points, (p.id : Int) = id) →
          Agent.perform c' s' (.setBreakpoint path line column) =
            (c', s', some (.breakpointSet id ⟨line, column⟩), .serve)) ∧
      ∀ (a b : Agent State) fuel message sent, a.context = c → a.engine = s →
        a.receive fuel message = some (b, sent) →
        (∃ more, Leads c s b.context b.engine more) ∧
          ∀ id, .stopOnBreakpoint id ∈ sent → StandsAt b.context b.engine id) ∧
    ∀ fuel capacity reads b sent,
      Agent.run fuel (State.initial library program) capacity reads = some (b, sent) →
      (∃ ids, Leads .initial (State.initial library program) b.context b.engine ids) ∧
      ∀ id, .stopOnBreakpoint id ∈ sent → ∃ c s before behind,
        Leads .initial (State.initial library program) c s before ∧
        Leads c s b.context b.engine behind ∧ StandsAt c s id := by
  have hstart := Coherent.initial library program
  refine ⟨fun c s ids h => ?_, fun fuel capacity reads b sent hrun => ?_⟩
  · have hcoherent := h.coherent hstart
    refine ⟨hcoherent.toAgree, h.nodup hstart, fun id hid => ?_,
      fun path line column c' s' hset => perform_unresolved hset,
      fun path line column c₁ s₁ id hset hid c' s' more hmore hlive =>
        hmore.set_again hcoherent hset hid hlive,
      fun a b fuel message sent hcontext hengine hreceive => ?_⟩
    · obtain ⟨hlast, hids⟩ := h.numbers_eq hstart
      have hrange := hcoherent.range id hid
      have hzero : Context.initial.breakpoints.lastId = 0 := rfl
      rw [hids, List.mem_range'_1]
      omega
    · subst hcontext hengine
      have hanswers := Answers.receive hcoherent hreceive
      exact ⟨hanswers.leads, hanswers.announced⟩
  · obtain ⟨a, hcontext, hengine, hserves⟩ := serves_of_run hrun
    rw [← hcontext, ← hengine]
    refine ⟨hserves.leads, fun id hid => ?_⟩
    obtain ⟨d, ⟨before, hbefore⟩, ⟨behind, hbehind⟩, hstands⟩ := hserves.announced id hid
    exact ⟨d.context, d.engine, before, behind, hbefore, hbehind, hstands⟩

/-- The agent behind some messages. -/
private def behindMessages : List HostMessage → Agent State → Option (Agent State)
  | [], a => some a
  | message :: rest, a => (a.receive 10 message).bind fun served => behindMessages rest served.1

private theorem leadsTo_behindMessages {messages : List HostMessage} {a b : Agent State}
    (hcoherent : Coherent a.context.breakpoints a.engine)
    (h : behindMessages messages a = some b) : LeadsTo a b := by
  induction messages generalizing a with
  | nil =>
      obtain rfl := Option.some.inj h
      exact .of_eq rfl rfl
  | cons message rest ih =>
      obtain ⟨⟨next, sent⟩, hreceive, hrest⟩ := Option.bind_eq_some_iff.1 h
      have hnext := (Answers.receive hcoherent hreceive).leads
      exact hnext.trans (ih (hnext.coherent hcoherent) hrest)

/-- A breakpoint that is set, removed and set again is announced by its second number. -/
theorem breakpoint_tables_agree_set_twice :
    ∃ (program : Program) (a b : Agent State) (ids : List Nat),
      Program.ofSource "main.mod" "print \"a\"\nprint \"b\"\n" = .ok program ∧
      Leads .initial (State.initial (fun _ => none) program) a.context a.engine ids ∧
      a.receive 10 .proceed = some (b, [.stopOnBreakpoint 2]) ∧ StandsAt b.context b.engine 2 := by
  have hcomputed :
      ((Program.ofSource "main.mod" "print \"a\"\nprint \"b\"\n").toOption.bind fun program =>
        (behindMessages
          [.proceed, .setBreakpoint "main.mod" 2 0, .removeBreakpoint 1,
            .setBreakpoint "main.mod" 2 0]
          ⟨State.initial (fun _ => none) program, .initial, {}, .greeting, true, none⟩).bind
          fun a => (a.receive 10 .proceed).map fun served =>
            (served.2 : List DebuggerMessage)) = some [.stopOnBreakpoint 2] := by cbv
  obtain ⟨program, hsource, hprogram⟩ := Program.exists_of_ofSource hcomputed
  obtain ⟨a, ha, hserved⟩ := Option.bind_eq_some_iff.1 hprogram
  obtain ⟨⟨b, sent⟩, hreceive, rfl⟩ := Option.map_eq_some_iff.1 hserved
  obtain ⟨ids, hids⟩ := leadsTo_behindMessages (Coherent.initial (fun _ => none) program) ha
  obtain ⟨-, -, -, -, -, hanswers⟩ := (breakpoint_tables_agree (fun _ => none) program).1 _ _ ids hids
  exact ⟨program, a, b, ids, hsource, hids, hreceive,
    (hanswers a b 10 .proceed _ rfl rfl hreceive).2 2 List.mem_cons_self⟩

end ScriptDebugger.Debug
