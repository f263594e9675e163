import ScriptDebugger.Proofs.Machine.SmallStep
import ScriptDebugger.Proofs.Machine.StatementStarts
/-!
# Choosing another program

Until its program is started, a machine may be told to run the program at another path instead. The
new program takes the place of the old one, and the breakpoints of the old one are gone with it. If
there is no program at the path, the machine stays as it is, and so it does once it was started.

A machine that was not started differs from a new one in its breakpoints only. So it makes no
difference whether a machine was opened on a path, or was led to it by any number of choices, some
of them of paths without a program.

## Main results

* `Opened.selectProgram_of_load` — choosing a program that can be loaded leaves a new machine.
* `Obeys.opened` — what any requests before the first resume make of a machine.
* `Obeys.switches` — what a choice does behind any requests.
-/

namespace ScriptDebugger.Machine

/-! ## Loading -/

/-- A program that is loaded has the path that it was loaded from. -/
theorem Program.url_of_load {library : String → Option String} {path : String} {p : Program}
    (h : Program.load library path = .ok p) : p.url = path := by
  obtain ⟨source, hsource⟩ := Program.exists_source_of_load h
  exact Program.url_of_ofSource hsource

/-- A machine is opened on a path exactly if there is a program, which it has not started. -/
theorem State.load_eq_ok_iff {library : String → Option String} {path : String} {s : State} :
    State.load library path = .ok s ↔
      ∃ p, Program.load library path = .ok p ∧ State.initial library p = s := by
  rw [State.load]
  cases Program.load library path with
  | ok p => simp [Except.map]
  | error e => simp [Except.map]

/-! ## Machines that were not started -/

/-- Up to its breakpoints, the machine is as it is opened on the path of its program. -/
def State.Opened (library : String → Option String) (s : State) : Prop :=
  State.load library s.program.url = .ok (s.withBreakpoints [])

namespace State.Opened

variable {library : String → Option String} {s t : State} {path : String}

/-- A machine that was just opened. -/
theorem of_load (h : State.load library path = .ok s) :
    s.Opened library ∧ s.program.url = path := by
  obtain ⟨p, hload, rfl⟩ := State.load_eq_ok_iff.1 h
  have hurl : p.url = path := Program.url_of_load hload
  refine ⟨?_, hurl⟩
  show State.load library p.url = .ok (State.initial library p)
  rw [hurl]
  exact h

theorem eq_initial (h : s.Opened library) :
    s.withBreakpoints [] = State.initial library s.program := by
  obtain ⟨p, -, hs⟩ := State.load_eq_ok_iff.1 h
  have hprogram : p = s.program := congrArg State.program hs
  rw [← hs, hprogram]

theorem not_started (h : s.Opened library) : s.started = false :=
  congrArg State.started h.eq_initial

theorem library_eq (h : s.Opened library) : s.library = library :=
  congrArg State.library h.eq_initial

/-- Breakpoints make no difference. -/
theorem of_breakpoints (h : s.Opened library) (places : List (UnitId × Nat)) :
    (s.withBreakpoints places).Opened library := h

/-- The program at another path takes the place of the one that is there, as if the machine had been
opened on it. -/
theorem selectProgram_of_load (h : s.Opened library) (hother : path ≠ s.program.url)
    (hload : State.load library path = .ok t) : s.selectProgram path = t := by
  obtain ⟨p, hprogram, rfl⟩ := State.load_eq_ok_iff.1 hload
  have hopen : ¬(path = s.program.url ∨ s.started = true) := by
    rintro (hsame | hstarted)
    · exact hother hsame
    · rw [h.not_started] at hstarted
      cases hstarted
  rw [← h.library_eq] at hprogram
  rw [State.selectProgram, if_neg hopen, hprogram]
  -- What is new is the program; the rest is what a new machine has.
  show { s.withBreakpoints [] with program := p } = State.initial library p
  rw [h.eq_initial]
  rfl

/-- A path without a program leaves the machine alone. -/
theorem selectProgram_of_error (h : s.Opened library) {e : LoadError}
    (hload : State.load library path = .error e) : s.selectProgram path = s := by
  have hprogram : ∃ e, Program.load library path = .error e := by
    cases hresult : Program.load library path with
    | error e => exact ⟨e, rfl⟩
    | ok p =>
        rw [State.load, hresult] at hload
        cases hload
  obtain ⟨e, hprogram⟩ := hprogram
  rw [State.selectProgram, h.library_eq, hprogram]
  split <;> rfl

end State.Opened

/-- The path of the program that is there. -/
theorem State.selectProgram_url (s : State) : s.selectProgram s.program.url = s := by
  rw [selectProgram, if_pos (Or.inl rfl)]

/-! ## Requests -/

/-- What is asked of a machine. -/
inductive Request
  /-- To run the program at a path. -/
  | select (path : String)
  /-- To break at a place. -/
  | setBreakpoint (unit : UnitId) (offset : Nat)
  /-- To break at a place no more. -/
  | clearBreakpoint (unit : UnitId) (offset : Nat)
  /-- To go on to the next event. -/
  | resume (hooks : Hooks)

/-- Whether the program goes on. -/
def Request.isResume : Request → Bool
  | .resume _ => true
  | _ => false

/-- The path of the program behind a request, where `url` is the one before it. -/
def Request.chosen (library : String → Option String) (url : String) : Request → String
  | .select path => if (State.load library path).isOk then path else url
  | _ => url

/-- Some requests, one after the other, lead from one machine to another, with these events. -/
inductive Obeys : State → List Request → List Event → State → Prop
  | done (s : State) : Obeys s [] [] s
  | select {s t : State} {requests : List Request} {events : List Event} (path : String)
      (h : Obeys (Engine.selectProgram s path) requests events t) :
      Obeys s (.select path :: requests) events t
  | setBreakpoint {s t : State} {requests : List Request} {events : List Event} (unit : UnitId)
      (offset : Nat) (h : Obeys (Engine.setBreakpoint s unit offset) requests events t) :
      Obeys s (.setBreakpoint unit offset :: requests) events t
  | clearBreakpoint {s t : State} {requests : List Request} {events : List Event} (unit : UnitId)
      (offset : Nat) (h : Obeys (Engine.clearBreakpoint s unit offset) requests events t) :
      Obeys s (.clearBreakpoint unit offset :: requests) events t
  | resume {s u t : State} {requests : List Request} {events : List Event} {event : Event}
      {hooks : Hooks} (hresume : Engine.Resumes hooks s u event)
      (h : Obeys u requests events t) : Obeys s (.resume hooks :: requests) (event :: events) t

/-- A choice before the start leaves a machine that was not started either. -/
theorem State.Opened.select {library : String → Option String} {s : State} (h : s.Opened library)
    (path : String) :
    (s.selectProgram path).Opened library ∧
      (s.selectProgram path).program.url = (Request.select path).chosen library s.program.url := by
  by_cases hsame : path = s.program.url
  · rw [hsame, State.selectProgram_url, Request.chosen]
    exact ⟨h, by split <;> rfl⟩
  · cases hload : State.load library path with
    | ok t =>
        rw [h.selectProgram_of_load hsame hload, Request.chosen, hload]
        exact of_load hload
    | error e =>
        rw [h.selectProgram_of_error hload, Request.chosen, hload]
        exact ⟨h, rfl⟩

/-- A machine that stopped for an event was started. -/
theorem started_of_resumes {hooks : Hooks} {s t : State} {event : Event}
    (h : Engine.Resumes hooks s t event) : t.started = true := by
  obtain ⟨fuel, hfuel⟩ := h
  induction fuel generalizing s with
  | zero => cases hfuel
  | succ fuel ih =>
      rw [Engine.resumeWithin] at hfuel
      rcases hadvance : Engine.advance hooks s with ⟨next, _ | reported⟩
      · rw [hadvance] at hfuel
        exact ih hfuel
      · rw [hadvance] at hfuel
        obtain ⟨rfl, -⟩ : next = t ∧ reported = event := by simpa using hfuel
        exact (State.step_of_advance hadvance).started

namespace Obeys

variable {library : String → Option String} {s t : State} {requests : List Request}
  {events : List Event}

/-- What is started stays so. -/
theorem started (h : Obeys s requests events t) (hstarted : s.started = true) :
    t.started = true := by
  induction h with
  | done => exact hstarted
  | @select s t requests events path h ih =>
      apply ih
      show (s.selectProgram path).started = true
      rw [State.selectProgram, if_pos (Or.inr hstarted)]
      exact hstarted
  | @setBreakpoint s t requests events unit offset h ih =>
      obtain ⟨places, hplaces⟩ := State.setBreakpoint_eq s unit offset
      apply ih
      rw [hplaces]
      exact hstarted
  | clearBreakpoint unit offset h ih => exact ih hstarted
  | resume hresume h ih => exact ih (started_of_resumes hresume)

/-- Behind a resume, the machine is started. -/
theorem started_of_resume (h : Obeys s requests events t)
    (hresume : ∃ r ∈ requests, r.isResume = true) : t.started = true := by
  induction h with
  | done =>
      obtain ⟨r, hr, -⟩ := hresume
      cases hr
  | resume hresumes h ih => exact h.started (started_of_resumes hresumes)
  | select path h ih | setBreakpoint unit offset h ih | clearBreakpoint unit offset h ih =>
      obtain ⟨r, hr, hresume⟩ := hresume
      rcases List.mem_cons.1 hr with rfl | hr
      · cases hresume
      · exact ih ⟨r, hr, hresume⟩

/-- Before the first resume, a machine is as it is opened on the path that was chosen last among
those that have a program, up to the breakpoints that were set since. -/
theorem opened (h : Obeys s requests events t) (hopened : s.Opened library)
    (hresume : ∀ r ∈ requests, r.isResume = false) :
    t.Opened library ∧
      t.program.url = requests.foldl (Request.chosen library) s.program.url := by
  induction h with
  | done => exact ⟨hopened, rfl⟩
  | @select s t requests events path h ih =>
      obtain ⟨hnext, hurl⟩ := hopened.select path
      have hrest := ih hnext fun r hr => hresume r (List.mem_cons_of_mem _ hr)
      rw [List.foldl_cons, ← hurl]
      exact hrest
  | @setBreakpoint s t requests events unit offset h ih =>
      obtain ⟨places, hplaces⟩ := State.setBreakpoint_eq s unit offset
      rw [hplaces] at ih
      exact ih (hopened.of_breakpoints places) fun r hr => hresume r (List.mem_cons_of_mem _ hr)
  | @clearBreakpoint s t requests events unit offset h ih =>
      exact ih (hopened.of_breakpoints _) fun r hr => hresume r (List.mem_cons_of_mem _ hr)
  | resume hresumes h ih => cases hresume _ List.mem_cons_self

end Obeys

/-! ## A choice behind any requests -/

/-- What the choice of a path does to the machine `s`, which `requests` made of the machine that was
opened on `url`. -/
structure Switches (library : String → Option String) (url : String) (requests : List Request)
    (s : State) (path : String) : Prop where
  /-- Before the first resume, the machine is a new one on the path that was chosen last among those
  that have a program, up to the breakpoints that were set since. -/
  standing : (∀ r ∈ requests, r.isResume = false) →
    State.load library (requests.foldl (Request.chosen library) url) = .ok (s.withBreakpoints [])
  /-- Before the first resume, another path that has a program leaves a new machine on that path. -/
  opened : (∀ r ∈ requests, r.isResume = false) → path ≠ s.program.url → ∀ t,
    State.load library path = .ok t → Engine.selectProgram s path = t
  /-- A path that has no program leaves the machine alone. -/
  refused : ∀ e, State.load library path = .error e → Engine.selectProgram s path = s
  /-- Behind a resume, any path leaves the machine alone. -/
  late : (∃ r ∈ requests, r.isResume = true) → Engine.selectProgram s path = s

/-- What a choice does behind any requests. -/
theorem Obeys.switches {library : String → Option String} {url : String} {s t : State}
    {requests : List Request} {events : List Event} (hload : State.load library url = .ok s)
    (h : Obeys s requests events t) (path : String) : Switches library url requests t path := by
  obtain ⟨hopened, hurl⟩ := State.Opened.of_load hload
  have hlate (hresume : ∃ r ∈ requests, r.isResume = true) : t.selectProgram path = t := by
    rw [State.selectProgram, if_pos (Or.inr (h.started_of_resume hresume))]
  refine ⟨fun hresume => ?_, fun hresume hother u hload => ?_, fun e herror => ?_, hlate⟩
  · obtain ⟨hstanding, hchosen⟩ := h.opened hopened hresume
    rw [← hurl, ← hchosen]
    exact hstanding
  · exact (h.opened hopened hresume).1.selectProgram_of_load hother hload
  · by_cases hresume : ∃ r ∈ requests, r.isResume = true
    · exact hlate hresume
    · have hnone : ∀ r ∈ requests, r.isResume = false := fun r hr =>
        Bool.eq_false_iff.2 fun hyes => hresume ⟨r, hr, hyes⟩
      exact (h.opened hopened hnone).1.selectProgram_of_error herror

end ScriptDebugger.Machine
