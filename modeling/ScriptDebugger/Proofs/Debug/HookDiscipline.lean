import ScriptDebugger.Debug.Stepper
/-!
# Hook discipline

An engine is free in what it reports: its events may come in any order, for frames that were never
hooked or are long gone, and behind the end of the program. So what the stepper asks for, and what
it stops for, is told here for any events of any engine and any commands to go on. A log keeps the
calls that were made of a stepper; what is said of the time since the last stop is read off it.

## Main results

* `reacts` — what an event can do to a stepper.
* `Sound.after` — a call keeps a log sound, with one lemma for each thing that it can do.
* `hooks_disciplined` — what the hooks are at any time, and which events stop the program.
-/

namespace ScriptDebugger.Debug.Stepper

variable {σ : Type}

/-! ## Calls and their log -/

/-- A call of the stepper. The engine is in any state. -/
inductive Call (σ : Type)
  /-- An event of the engine. -/
  | event (engine : σ) (event : Event)
  /-- A command to go on. -/
  | resume (mode : RunMode)

/-- A call that was made. -/
structure Entry (σ : Type) where
  /-- The stepper before the call. -/
  before : Stepper
  /-- The call. -/
  call : Call σ
  /-- The stepper behind it. -/
  after : Stepper
  /-- The stop that was reported. -/
  stop : Option Stop

namespace Entry

/-- The call reported a stop. -/
def Stops (e : Entry σ) : Prop := e.stop ≠ none

/-- The call reported a stop at the entry of a frame. -/
def StopsAtEntry (e : Entry σ) : Prop :=
  (∃ engine frame, e.call = .event engine (.enterFrame frame)) ∧ e.Stops

/-- The call reported that the program is loaded. -/
def ReportsLoaded (e : Entry σ) : Prop := ∃ frame, e.stop = some ⟨frame, .loaded⟩

/-- The call ended a pause in this way. -/
def ResumesAs (mode : RunMode) (e : Entry σ) : Prop :=
  e.call = .resume mode ∧ e.before.paused ≠ none

/-- The call ended a pause. A command to go on that finds no pause does not. -/
def Resumes (e : Entry σ) : Prop := ∃ mode, e.ResumesAs mode

/-- The call put a hook on the frame. -/
def HooksFrame (frame : FrameId) (e : Entry σ) : Prop :=
  e.after.hooks.action frame ≠ none ∧
    e.after.hooks.action frame ≠ e.before.hooks.action frame

end Entry

/-- Some entry has the one property, and none behind it has the other. -/
def Since (happened undone : Entry σ → Prop) (entries : List (Entry σ)) : Prop :=
  ∃ front e behind, entries = front ++ e :: behind ∧ happened e ∧
    ∀ later ∈ behind, ¬undone later

namespace Since

variable {happened undone : Entry σ → Prop} {entries : List (Entry σ)} {e : Entry σ}

theorem last (h : happened e) : Since happened undone (entries ++ [e]) :=
  ⟨entries, e, [], rfl, h, by simp⟩

theorem append (h : Since happened undone entries) (he : ¬undone e) :
    Since happened undone (entries ++ [e]) := by
  obtain ⟨front, first, behind, rfl, hfirst, hbehind⟩ := h
  refine ⟨front, first, behind ++ [e], by simp, hfirst, ?_⟩
  intro later hlater
  rcases List.mem_append.mp hlater with hlater | hlater
  · exact hbehind later hlater
  · rw [List.mem_singleton.mp hlater]
    exact he

theorem of_append (h : Since happened undone (entries ++ [e])) :
    happened e ∨ Since happened undone entries ∧ ¬undone e := by
  obtain ⟨front, first, behind, heq, hfirst, hbehind⟩ := h
  rcases List.eq_nil_or_concat behind with rfl | ⟨inner, tail, rfl⟩
  · obtain rfl := List.singleton_inj.mp (List.append_inj' heq rfl).2
    exact Or.inl hfirst
  · have hsplit : entries ++ [e] = (front ++ first :: inner) ++ [tail] := by simpa using heq
    obtain ⟨rfl, htail⟩ := List.append_inj' hsplit rfl
    obtain rfl := List.singleton_inj.mp htail
    refine Or.inr ⟨⟨front, first, inner, rfl, hfirst, ?_⟩, hbehind e (by simp)⟩
    intro later hlater
    exact hbehind later (by simp [hlater])

end Since

section

variable [Engine σ]

/-- Makes a call. -/
def take (s : Stepper) : Call σ → Stepper × Option Stop
  | .event engine event => s.onEvent engine event
  | .resume mode => (s.resume mode, none)

/-- The entry of a call. -/
def entryOf (s : Stepper) (call : Call σ) : Entry σ :=
  ⟨s, call, (s.take call).1, (s.take call).2⟩

/-- What an event can do to a stepper: nothing, end the program, stop it for the first time at an
entry, stop it in another way, or end a frame that is waited for. -/
inductive Reacts (s : Stepper) (engine : σ) : Event → Stepper × Option Stop → Prop
  | ignored {event : Event} (hbreakpoint : ∀ frame offset, event ≠ .breakpoint frame offset) :
    Reacts s engine event (s, none)
  | finished : Reacts s engine .finished ({ s with hooks := .none, paused := none }, none)
  | loaded {frame : FrameId} (hloaded : s.loaded = false) :
    Reacts s engine (.enterFrame frame) ({ s with loaded := true }.pause engine frame .loaded)
  | stopped {event : Event} {frame : FrameId} {reason : StopReason} (hreason : reason ≠ .loaded)
    (hentry : ∀ entered, event = .enterFrame entered → s.loaded = true) :
    Reacts s engine event (s.pause engine frame reason)
  | left {frame : FrameId} (haction : s.hooks.action frame = some .pop) :
    Reacts s engine (.pop frame) (s.leave engine frame, none)

theorem reacts (s : Stepper) (engine : σ) (event : Event) :
    Reacts s engine event (s.onEvent engine event) := by
  cases event with
  | finished => exact .finished
  | breakpoint frame offset => exact .stopped nofun nofun
  | enterFrame frame =>
      cases henter : s.hooks.onEnter with
      | false =>
          have hsame : s.onEvent engine (.enterFrame frame) = (s, none) := by
            simp [onEvent, henter]
          exact hsame ▸ .ignored nofun
      | true =>
          cases hloaded : s.loaded with
          | false =>
              have hfirst : s.onEvent engine (.enterFrame frame) =
                  { s with loaded := true }.pause engine frame .loaded := by
                simp [onEvent, henter, hloaded]
              exact hfirst ▸ .loaded hloaded
          | true =>
              have hstop : s.onEvent engine (.enterFrame frame) =
                  s.pause engine frame .step := by
                simp [onEvent, henter, hloaded]
              exact hstop ▸ .stopped nofun fun _ _ => hloaded
  | step frame =>
      simp only [onEvent]
      split
      · exact .ignored nofun
      · split
        · exact .ignored nofun
        · exact .stopped nofun nofun
  | pop frame =>
      simp only [onEvent]
      split
      · exact .ignored nofun
      · rename_i haction
        exact .left (Decidable.not_not.mp haction)

end

/-- A stepper, and the calls that were made of it. -/
structure Log (σ : Type) where
  /-- The stepper. -/
  stepper : Stepper := .initial
  /-- The calls, the first one first. -/
  entries : List (Entry σ) := []

namespace Log

variable [Engine σ]

/-- Makes one more call. -/
def after (log : Log σ) (call : Call σ) : Log σ where
  stepper := (log.stepper.take call).1
  entries := log.entries ++ [log.stepper.entryOf call]

/-- Makes calls of a new stepper, one after another. -/
def run (calls : List (Call σ)) : Log σ := calls.foldl after {}

end Log

/-! ## What holds at any time -/

/-- The hooks that a stepper can have. Where a frame is hooked, that was done since the last stop;
and entries are waited for besides only where the program was told to step in since then. -/
inductive Armed (entries : List (Entry σ)) : Hooks → Prop
  | off : Armed entries .none
  | entry : Armed entries (Hooks.none.setOnEnter true)
  | frame {frame : FrameId} (action : HookAction)
    (hhooked : Since (Entry.HooksFrame frame) Entry.Stops entries) :
    Armed entries (Hooks.none.install frame action)
  | both {frame : FrameId} (hhooked : Since (Entry.HooksFrame frame) Entry.Stops entries)
    (hinto : Since (Entry.ResumesAs .into) (fun e => e.Stops ∨ e.Resumes) entries) :
    Armed entries ((Hooks.none.install frame .step).setOnEnter true)

/-- What holds of a log at any time. -/
structure Sound (log : Log σ) : Prop where
  armed : Armed log.entries log.stepper.hooks
  paused : log.stepper.paused ≠ none → log.stepper.hooks = .none
  stopped : Since Entry.Stops Entry.Resumes log.entries → log.stepper.hooks = .none
  loaded : log.stepper.loaded = true ↔ ∃ e ∈ log.entries, e.StopsAtEntry
  reported : ∀ e ∈ log.entries, e.ReportsLoaded → log.stepper.loaded = true
  once : log.entries.Pairwise fun e later => ¬(e.ReportsLoaded ∧ later.ReportsLoaded)

theorem sound_initial : Sound ({} : Log σ) where
  armed := .entry
  paused h := absurd rfl h
  stopped := by
    rintro ⟨front, e, behind, hsplit, -⟩
    simp at hsplit
  loaded := by simp [initial]
  reported := by simp
  once := .nil

theorem install_remove (frame : FrameId) (action : HookAction) :
    (Hooks.none.install frame action).remove frame = Hooks.none := by
  simp [Hooks.install, Hooks.remove, Hooks.none]

theorem action_none (frame : FrameId) : Hooks.none.action frame = none := rfl

namespace Armed

variable {entries : List (Entry σ)} {hooks : Hooks} {e : Entry σ}

/-- A call that neither stops nor ends a pause leaves the hooks as they can be. -/
theorem append (h : Armed entries hooks) (hstop : ¬e.Stops) (hresume : ¬e.Resumes) :
    Armed (entries ++ [e]) hooks := by
  cases h with
  | off => exact .off
  | entry => exact .entry
  | frame action hhooked => exact .frame action (hhooked.append hstop)
  | both hhooked hinto =>
      refine .both (hhooked.append hstop) (hinto.append ?_)
      rintro (h | h)
      · exact hstop h
      · exact hresume h

theorem length_le (h : Armed entries hooks) : hooks.actions.length ≤ 1 := by
  cases h with
  | off => exact Nat.zero_le 1
  | entry => exact Nat.zero_le 1
  | frame => exact Nat.le_refl 1
  | both => exact Nat.le_refl 1

theorem into_of_onEnter (h : Armed entries hooks) (hactions : hooks.actions ≠ [])
    (henter : hooks.onEnter = true) :
    Since (Entry.ResumesAs .into) (fun e => e.Stops ∨ e.Resumes) entries := by
  cases h with
  | off => exact absurd rfl hactions
  | entry => exact absurd rfl hactions
  | frame => cases henter
  | both hhooked hinto => exact hinto

/-- A frame with a hook was hooked since the last stop. -/
theorem hooked_of_action (h : Armed entries hooks) {frame : FrameId} {action : HookAction}
    (haction : hooks.action frame = some action) :
    Since (Entry.HooksFrame frame) Entry.Stops entries := by
  have hframe {hooked : FrameId} {installed : HookAction}
      (h : (Hooks.none.install hooked installed).action frame = some action) :
      hooked = frame := by
    refine Decidable.byContradiction fun hne => ?_
    rw [Hooks.action_install_ne _ _ (Ne.symm hne)] at h
    cases h
  cases h with
  | off => cases haction
  | entry => cases haction
  | frame installed hhooked =>
      obtain rfl := hframe haction
      exact hhooked
  | both hhooked =>
      obtain rfl := hframe haction
      exact hhooked

/-- A frame whose end is waited for is hooked alone. -/
theorem eq_of_pop (h : Armed entries hooks) {frame : FrameId}
    (haction : hooks.action frame = some .pop) : hooks = Hooks.none.install frame .pop := by
  have hinstalled {hooked : FrameId} {installed : HookAction}
      (h : (Hooks.none.install hooked installed).action frame = some .pop) :
      hooked = frame ∧ installed = .pop := by
    by_cases hne : frame = hooked
    · subst hne
      rw [Hooks.action_install_self] at h
      exact ⟨rfl, Option.some.inj h⟩
    · rw [Hooks.action_install_ne _ _ hne] at h
      cases h
  cases h with
  | off => cases haction
  | entry => cases haction
  | frame installed =>
      obtain ⟨rfl, rfl⟩ := hinstalled haction
      rfl
  | both => cases (hinstalled haction).2

end Armed

/-! ## What a call keeps -/

namespace Sound

variable {log : Log σ} {s : Stepper} {e : Entry σ}

/-- What is said of loading is kept by a call that does not stop. -/
theorem loaded_append (h : Sound log) (hstop : e.stop = none)
    (hloaded : s.loaded = log.stepper.loaded) :
    (s.loaded = true ↔ ∃ e' ∈ log.entries ++ [e], e'.StopsAtEntry) ∧
      (∀ e' ∈ log.entries ++ [e], e'.ReportsLoaded → s.loaded = true) ∧
      (log.entries ++ [e]).Pairwise fun e later => ¬(e.ReportsLoaded ∧ later.ReportsLoaded) := by
  have hentry : ¬e.StopsAtEntry := fun h => h.2 hstop
  have hreport : ¬e.ReportsLoaded := by
    rintro ⟨frame, h⟩
    rw [hstop] at h
    cases h
  rw [hloaded]
  refine ⟨?_, ?_, ?_⟩
  · simp only [List.mem_append, List.mem_singleton, or_and_right, exists_or, exists_eq_left, hentry,
      or_false]
    exact h.loaded
  · intro e' hmem hreported
    rcases List.mem_append.mp hmem with hmem | hmem
    · exact h.reported e' hmem hreported
    · rw [List.mem_singleton.mp hmem] at hreported
      exact absurd hreported hreport
  · refine List.pairwise_append.mpr ⟨h.once, List.pairwise_singleton _ _, ?_⟩
    intro e' _ later hlater hboth
    rw [List.mem_singleton.mp hlater] at hboth
    exact hreport hboth.2

/-- A call that changes nothing. -/
theorem keep (h : Sound log) (hstop : e.stop = none) (hresume : ¬e.Resumes) :
    Sound ⟨log.stepper, log.entries ++ [e]⟩ where
  armed := h.armed.append (fun hstops => hstops hstop) hresume
  paused := h.paused
  stopped hsince := by
    rcases hsince.of_append with hstops | ⟨hsince, -⟩
    · exact absurd hstop hstops
    · exact h.stopped hsince
  loaded := (h.loaded_append hstop rfl).1
  reported := (h.loaded_append hstop rfl).2.1
  once := (h.loaded_append hstop rfl).2.2

/-- The end of the program. -/
theorem finish (h : Sound log) (hstop : e.stop = none) :
    Sound ⟨{ log.stepper with hooks := .none, paused := none }, log.entries ++ [e]⟩ where
  armed := .off
  paused _ := rfl
  stopped _ := rfl
  loaded := (h.loaded_append hstop rfl).1
  reported := (h.loaded_append hstop rfl).2.1
  once := (h.loaded_append hstop rfl).2.2

/-- A stop. All hooks are gone; the entry of a first frame is reported as such. -/
theorem stop (h : Sound log) {frame : FrameId} {reason : StopReason} {location : Option Location}
    {loaded : Bool} (hstop : e.stop = some ⟨frame, reason⟩)
    (hloaded : loaded = true ↔ log.stepper.loaded = true ∨ e.StopsAtEntry)
    (hreason : reason = .loaded → log.stepper.loaded = false ∧ loaded = true) :
    Sound ⟨⟨some frame, .none, loaded, location⟩, log.entries ++ [e]⟩ where
  armed := .off
  paused _ := rfl
  stopped _ := rfl
  loaded := by
    simp only [List.mem_append, List.mem_singleton, or_and_right, exists_or, exists_eq_left]
    rw [hloaded, h.loaded]
  reported e' hmem hreported := by
    rcases List.mem_append.mp hmem with hmem | hmem
    · exact hloaded.mpr (Or.inl (h.reported e' hmem hreported))
    · obtain ⟨frame', hreported⟩ := hreported
      rw [List.mem_singleton.mp hmem, hstop] at hreported
      exact (hreason (congrArg Stop.reason (Option.some.inj hreported))).2
  once := by
    refine List.pairwise_append.mpr ⟨h.once, List.pairwise_singleton _ _, ?_⟩
    rintro e' hmem later hlater ⟨hreported, frame', hlate⟩
    rw [List.mem_singleton.mp hlater, hstop] at hlate
    have hnot := (hreason (congrArg Stop.reason (Option.some.inj hlate))).1
    rw [h.reported e' hmem hreported] at hnot
    cases hnot

/-- A command to go on that ends a pause. -/
theorem resume (h : Sound log) {frame : FrameId} {mode : RunMode}
    (hpaused : log.stepper.paused = some frame) (hstop : e.stop = none)
    (hcall : e.call = .resume mode) (hbefore : e.before = log.stepper)
    (hafter : e.after = { log.stepper with hooks := hooksFor frame mode, paused := none }) :
    Sound ⟨{ log.stepper with hooks := hooksFor frame mode, paused := none },
      log.entries ++ [e]⟩ := by
  have hoff : e.before.hooks = .none := by
    rw [hbefore]
    exact h.paused (by rw [hpaused]; nofun)
  have hresumes : e.ResumesAs mode := ⟨hcall, by rw [hbefore, hpaused]; nofun⟩
  have hhooked {action : HookAction} (haction : (hooksFor frame mode).action frame = some action) :
      Since (Entry.HooksFrame frame) Entry.Stops (log.entries ++ [e]) := by
    refine .last ?_
    rw [Entry.HooksFrame, hoff, hafter]
    show (hooksFor frame mode).action frame ≠ none ∧ (hooksFor frame mode).action frame ≠ none
    rw [haction]
    exact ⟨nofun, nofun⟩
  have hself (action : HookAction) := Hooks.action_install_self .none frame action
  obtain ⟨hload, hreported, honce⟩ := h.loaded_append hstop
    (rfl : { log.stepper with hooks := hooksFor frame mode, paused := none }.loaded = _)
  refine ⟨?_, fun hne => absurd rfl hne, ?_, hload, hreported, honce⟩
  · cases mode with
    | run => exact .off
    | «over» => exact .frame .step (hhooked (hself .step))
    | into => exact .both (hhooked (hself .step)) (.last hresumes)
    | out => exact .frame .pop (hhooked (hself .pop))
  · intro hsince
    rcases hsince.of_append with hstops | ⟨-, hnot⟩
    · exact absurd hstop hstops
    · exact absurd ⟨mode, hresumes⟩ hnot

variable [Engine σ]

/-- The end of a frame that was waited for. The caller is hooked by this very call. The program has
not stopped since it went on, for a stop would have taken the hook off the frame. -/
theorem leave (h : Sound log) (engine : σ) {frame : FrameId}
    (haction : log.stepper.hooks.action frame = some .pop) (hstop : e.stop = none)
    (hbefore : e.before = log.stepper) (hafter : e.after = log.stepper.leave engine frame) :
    Sound ⟨log.stepper.leave engine frame, log.entries ++ [e]⟩ := by
  have hhooks : log.stepper.hooks.remove frame = .none := by
    rw [h.armed.eq_of_pop haction, install_remove]
  have hrunning : log.stepper.hooks ≠ .none := by
    intro hnone
    rw [hnone] at haction
    cases haction
  have hpaused : log.stepper.paused = none :=
    Decidable.byContradiction fun hpaused => hrunning (h.paused hpaused)
  have hkept : (log.stepper.leave engine frame).loaded = log.stepper.loaded ∧
      (log.stepper.leave engine frame).paused = none := by
    unfold Stepper.leave
    split
    · exact ⟨rfl, hpaused⟩
    · exact ⟨rfl, hpaused⟩
  obtain ⟨hload, hreported, honce⟩ := h.loaded_append hstop hkept.1
  refine ⟨?_, fun hne => absurd hkept.2 hne, ?_, hload, hreported, honce⟩
  · cases holder : (Engine.frame? engine frame).bind (·.older) with
    | none =>
        have hleft : (log.stepper.leave engine frame).hooks = Hooks.none.setOnEnter true := by
          simp only [Stepper.leave, holder, hhooks]
        show Armed (log.entries ++ [e]) (log.stepper.leave engine frame).hooks
        rw [hleft]
        exact .entry
    | some caller =>
        have hleft : (log.stepper.leave engine frame).hooks = Hooks.none.install caller .step := by
          simp only [Stepper.leave, holder, hhooks]
        have hhooked : e.HooksFrame caller := by
          have hpop : log.stepper.hooks.action caller ≠ some .step := by
            rw [h.armed.eq_of_pop haction]
            by_cases hsame : caller = frame
            · rw [hsame, Hooks.action_install_self]
              nofun
            · rw [Hooks.action_install_ne _ _ hsame]
              nofun
          rw [Entry.HooksFrame, hbefore, hafter, hleft, Hooks.action_install_self]
          exact ⟨nofun, Ne.symm hpop⟩
        show Armed (log.entries ++ [e]) (log.stepper.leave engine frame).hooks
        rw [hleft]
        exact .frame .step (.last hhooked)
  · intro hsince
    rcases hsince.of_append with hstops | ⟨hsince, -⟩
    · exact absurd hstop hstops
    · exact absurd (h.stopped hsince) hrunning

/-- A call keeps a log sound. -/
theorem after (h : Sound log) (call : Call σ) : Sound (log.after call) := by
  cases call with
  | resume mode =>
      cases hpaused : log.stepper.paused with
      | none =>
          have hsame : (log.stepper.take (.resume mode : Call σ)).1 = log.stepper := by
            simp only [take, Stepper.resume, hpaused]
          rw [Log.after, hsame]
          refine h.keep rfl ?_
          rintro ⟨mode', -, hne⟩
          exact hne hpaused
      | some frame =>
          have hleft : (log.stepper.take (.resume mode : Call σ)).1 =
              { log.stepper with hooks := hooksFor frame mode, paused := none } := by
            simp only [take, Stepper.resume, hpaused]
          rw [Log.after, hleft]
          exact h.resume hpaused rfl rfl rfl hleft
  | event engine event =>
      have hresume : ¬(log.stepper.entryOf (.event engine event)).Resumes := by
        rintro ⟨mode, hcall, -⟩
        cases hcall
      have hreacts := reacts log.stepper engine event
      rw [Log.after, take]
      generalize hresult : log.stepper.onEvent engine event = result at hreacts ⊢
      have hstop : (log.stepper.entryOf (.event engine event)).stop = result.2 :=
        congrArg Prod.snd hresult
      have hafter : (log.stepper.entryOf (.event engine event)).after = result.1 :=
        congrArg Prod.fst hresult
      cases hreacts with
      | ignored => exact h.keep hstop hresume
      | finished => exact h.finish hstop
      | left haction => exact h.leave engine haction hstop rfl hafter
      | loaded hloaded =>
          refine h.stop hstop ⟨fun _ => Or.inr ⟨⟨engine, _, rfl⟩, ?_⟩, fun _ => rfl⟩
            fun _ => ⟨hloaded, rfl⟩
          rw [Entry.Stops, hstop]
          nofun
      | stopped hreason hentry =>
          refine h.stop hstop ⟨Or.inl, ?_⟩ fun hloaded => absurd hloaded hreason
          rintro (hloaded | ⟨⟨engine', entered, hcall⟩, -⟩)
          · exact hloaded
          · exact hentry entered (Call.event.inj hcall).2

/-- So do calls one after another. -/
theorem run (calls : List (Call σ)) : Sound (Log.run calls) := by
  unfold Log.run
  generalize hlog : ({} : Log σ) = log
  have h : Sound log := hlog ▸ sound_initial
  clear hlog
  induction calls generalizing log with
  | nil => exact h
  | cons call calls ih => exact ih _ (h.after call)

end Sound

/-! ## What the hooks are, and what stops the program -/

/-- The discipline of a stepper behind the calls of a log. What is said of an event is said of any
event that may come next, from an engine in any state. -/
structure Disciplined [Engine σ] (log : Log σ) : Prop where
  /-- A paused program has no hooks. -/
  none_of_paused : log.stepper.paused ≠ none → log.stepper.hooks = .none
  /-- A running one has a hook on one frame at most. -/
  one_of_running : log.stepper.paused = none → log.stepper.hooks.actions.length ≤ 1
  /-- A frame is hooked while entries are waited for only where the program stepped in last. -/
  into_of_both : log.stepper.paused = none → log.stepper.hooks.actions ≠ [] →
    log.stepper.hooks.onEnter = true →
    Since (Entry.ResumesAs .into) (fun e => e.Stops ∨ e.Resumes) log.entries
  /-- Between a stop and the command that ends the pause, only breakpoints stop. -/
  quiet : Since Entry.Stops Entry.Resumes log.entries → ∀ (engine : σ) event,
    (∀ frame offset, event ≠ .breakpoint frame offset) →
      (log.stepper.onEvent engine event).2 = none
  /-- A step of a frame, or its end, stops only where the frame was hooked since the last stop. -/
  hooked : ∀ (engine : σ) frame event, event = .step frame ∨ event = .pop frame →
    (log.stepper.onEvent engine event).2 ≠ none →
      Since (Entry.HooksFrame frame) Entry.Stops log.entries
  /-- The first stop at an entry, and no other stop, tells that the program is loaded. -/
  loaded_iff : ∀ (engine : σ) event stop, (log.stepper.onEvent engine event).2 = some stop →
    (stop.reason = .loaded ↔
      (∃ frame, event = .enterFrame frame) ∧ ∀ e ∈ log.entries, ¬e.StopsAtEntry)
  /-- That is told once at most. -/
  loaded_once : log.entries.Pairwise fun e later => ¬(e.ReportsLoaded ∧ later.ReportsLoaded)

/-- Without hooks only breakpoints stop. -/
theorem onEvent_snd_of_hooks_none [Engine σ] {s : Stepper} (hhooks : s.hooks = .none) (engine : σ)
    {event : Event} (hevent : ∀ frame offset, event ≠ .breakpoint frame offset) :
    (s.onEvent engine event).2 = none := by
  cases event with
  | finished => rfl
  | enterFrame frame => simp [onEvent, hhooks, Hooks.none]
  | step frame => simp [onEvent, hhooks, action_none]
  | pop frame => simp [onEvent, hhooks, action_none]
  | breakpoint frame offset => exact absurd rfl (hevent frame offset)

/-- Which stop an event makes of a stepper. -/
theorem reason_eq_loaded_iff [Engine σ] {s : Stepper} {engine : σ} {event : Event} {stop : Stop}
    (hstop : (s.onEvent engine event).2 = some stop) :
    stop.reason = .loaded ↔ (∃ frame, event = .enterFrame frame) ∧ s.loaded = false := by
  have hreacts := reacts s engine event
  generalize s.onEvent engine event = result at hreacts hstop
  cases hreacts with
  | ignored => cases hstop
  | finished => cases hstop
  | left => cases hstop
  | loaded hloaded =>
      obtain rfl := Option.some.inj hstop
      exact ⟨fun _ => ⟨⟨_, rfl⟩, hloaded⟩, fun _ => rfl⟩
  | stopped hreason hentry =>
      obtain rfl := Option.some.inj hstop
      refine ⟨fun hloaded => absurd hloaded hreason, ?_⟩
      rintro ⟨⟨entered, hevent⟩, hloaded⟩
      rw [hentry entered hevent] at hloaded
      cases hloaded

/-- Whatever calls are made of a new stepper, it keeps the discipline. -/
theorem hooks_disciplined [Engine σ] (calls : List (Call σ)) : Disciplined (Log.run calls) := by
  have h : Sound (Log.run calls) := .run calls
  refine ⟨h.paused, fun _ => h.armed.length_le, fun _ => h.armed.into_of_onEnter, ?_, ?_, ?_,
    h.once⟩
  · intro hsince engine event hevent
    exact onEvent_snd_of_hooks_none (h.stopped hsince) engine hevent
  · rintro engine frame event (rfl | rfl) hstop
    · have haction : (Log.run calls).stepper.hooks.action frame = some .step := by
        refine Decidable.byContradiction fun hne => hstop ?_
        simp [onEvent, hne]
      exact h.armed.hooked_of_action haction
    · have hpop : ((Log.run calls).stepper.onEvent engine (.pop frame)).2 = none := by
        simp only [onEvent]
        split
        · rfl
        · rfl
      exact absurd hpop hstop
  · intro engine event stop hstop
    have hloaded : (Log.run calls).stepper.loaded = false ↔
        ∀ e ∈ (Log.run calls).entries, ¬e.StopsAtEntry := by
      rw [← Bool.not_eq_true, h.loaded]
      simp only [not_exists, not_and]
    rw [reason_eq_loaded_iff hstop, hloaded]

end ScriptDebugger.Debug.Stepper
