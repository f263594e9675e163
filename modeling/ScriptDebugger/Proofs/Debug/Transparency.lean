import Mathlib
import ScriptDebugger.Proofs.Debug.Morphism
import ScriptDebugger.Proofs.Debug.Turn
import ScriptDebugger.Proofs.Machine.Recorder
import ScriptDebugger.Proofs.Wire.Chunks
/-!
# Debugging is transparent

A program under the debug agent executes what it executes alone, whatever the front end sends and
wherever its stream breaks off, as long as it assigns to no variable and chooses no other program.

The agent is followed on a machine that records its instructions. Its state is on course for `t`
when some number of ticks leads from its engine to `t`; every request that the front end may send
keeps it on course, and to let the program go on uses up ticks. Since the bound on the ticks never
grows, one bound on the fuel serves a whole life of an agent.

## Main results

* `runWithin_leadsTo`, `runToEnd_leadsTo` — to go on, with and without stops, ends and stays on
  course.
* `OnCourse.serveReads` — so does a stream of requests.
* `run_transparent` — a whole life of an agent leaves what the run alone leaves.
-/

namespace ScriptDebugger.Debug

open Machine (State Recorded)
open Machine.Recorded (LeadsTo Finished)
open Wire (HostMessage DebuggerMessage Decoder Read)

/-! ## Going on -/

/-- To a debugger a recorder is its machine. -/
theorem morphism_recorded : Morphism Recorded.state where
  advance _ _ := rfl
  topUnits _ := rfl
  unitInfo? _ := rfl
  childUnits _ := rfl
  unitCount _ := rfl
  breakpointOffsets _ := rfl
  location? _ := rfl
  setBreakpoint _ _ _ := rfl
  clearBreakpoint _ _ _ := rfl
  frame? _ := rfl
  bindingNames _ := rfl
  binding? _ := rfl
  setBinding r frame name value := by
    change _ = ((Engine.setBinding r.state frame name value).map _).map Recorded.state
    rcases Engine.setBinding r.state frame name value with _ | _ <;> rfl
  globalObject _ := rfl
  objectClass? _ := rfl
  propertyNames _ := rfl
  property? _ := rfl
  setProperty r id name value := by
    change _ = ((Engine.setProperty r.state id name value).map _).map Recorded.state
    rcases Engine.setProperty r.state id name value with _ | _ <;> rfl
  importValue _ _ := rfl
  selectProgram _ _ := rfl

section

variable {n fuel : Nat} {r t : Recorded}

/-- The run to the next stop ends, on course. -/
theorem runWithin_leadsTo (c : Context) (h : LeadsTo n r t) (hfuel : 2 * n + 1 ≤ fuel) :
    ∃ c' r' stop, c.runWithin fuel r = some (c', r', stop) ∧ r'.state.started = true ∧
      (∃ m, m ≤ n ∧ LeadsTo m r' t) ∧ (stop = none → r'.bare = t) := by
  induction n using Nat.strongRecOn generalizing c r fuel with
  | ind n ih =>
    obtain ⟨fuel, rfl⟩ : ∃ k, fuel = k + 1 := ⟨fuel - 1, by omega⟩
    rw [runWithin_succ]
    cases Recorded.progress c.hooks r with
    | finish hfinished =>
        rw [hfinished.advance]
        exact ⟨c, r, none, rfl, hfinished.started, ⟨n, Nat.le_refl n, h⟩,
          fun _ => h.bare_eq hfinished⟩
    | tick event hopen hfinish hpop hadvance =>
        obtain ⟨m, rfl, hm⟩ := h.tick_of_not_finished hopen
        have hrest : ∀ c : Context, ∃ c' r' stop, c.runWithin fuel r.tick = some (c', r', stop) ∧
            r'.state.started = true ∧ (∃ k, k ≤ m + 1 ∧ LeadsTo k r' t) ∧
            (stop = none → r'.bare = t) := by
          intro c
          obtain ⟨c', r', stop, hrun, hstarted, ⟨k, hk, hleads⟩, hend⟩ :=
            ih m (Nat.lt_succ_self m) c hm (show 2 * m + 1 ≤ fuel by omega)
          exact ⟨c', r', stop, hrun, hstarted, ⟨k, by omega, hleads⟩, hend⟩
        rw [hadvance]
        rcases event with _ | event
        · exact hrest c
        · rcases honEvent : c.onEvent r.tick event with ⟨c', _ | stop⟩
          · cases event with
            | finished => exact absurd rfl hfinish
            | _ => simpa only [honEvent] using hrest c'
          · have hstarted : r.tick.state.started = true := State.tick_started r.state
            cases event with
            | finished => exact absurd rfl hfinish
            | _ =>
                simp only [honEvent]
                refine ⟨c', r.tick, some stop, rfl, hstarted, ⟨m, Nat.le_succ m, hm⟩, ?_⟩
                intro hnone
                cases hnone
    | pop next frame hopen hadvance hbehind =>
        obtain ⟨m, rfl, hm⟩ := h.tick_of_not_finished hopen
        obtain ⟨fuel, rfl⟩ : ∃ k, fuel = k + 1 := ⟨fuel - 1, by omega⟩
        obtain ⟨c', honEvent⟩ := onEvent_pop c next frame
        obtain ⟨c'', r', stop, hrun, hstarted, ⟨k, hk, hleads⟩, hend⟩ :=
          ih m (Nat.lt_succ_self m) c' hm (show 2 * m + 1 ≤ fuel by omega)
        rw [hadvance]
        simp only [honEvent]
        rw [runWithin_succ, hbehind]
        exact ⟨c'', r', stop, hrun, hstarted, ⟨k, by omega, hleads⟩, hend⟩

/-- The run to the end, past all stops, ends where the program ends. -/
theorem runToEnd_leadsTo (c : Context) (h : LeadsTo n r t) (hfuel : 2 * n + 1 ≤ fuel) :
    ∃ c' r', Agent.runToEnd fuel c r = some (c', r') ∧ r'.bare = t := by
  induction n using Nat.strongRecOn generalizing c r fuel with
  | ind n ih =>
    obtain ⟨fuel, rfl⟩ : ∃ k, fuel = k + 1 := ⟨fuel - 1, by omega⟩
    rw [Agent.runToEnd]
    cases Recorded.progress c.hooks r with
    | finish hfinished =>
        rw [hfinished.advance]
        exact ⟨c, r, rfl, h.bare_eq hfinished⟩
    | tick event hopen hfinish hpop hadvance =>
        obtain ⟨m, rfl, hm⟩ := h.tick_of_not_finished hopen
        have hrest : ∀ c : Context, ∃ c' r', Agent.runToEnd fuel c r.tick = some (c', r') ∧
            r'.bare = t :=
          fun c => ih m (Nat.lt_succ_self m) c hm (show 2 * m + 1 ≤ fuel by omega)
        rw [hadvance]
        rcases event with _ | event
        · exact hrest c
        · rcases honEvent : c.onEvent r.tick event with ⟨c', _ | stop⟩
          · cases event with
            | finished => exact absurd rfl hfinish
            | _ => simpa only [honEvent] using hrest c'
          · cases event with
            | finished => exact absurd rfl hfinish
            | _ => simpa only [honEvent] using hrest (c'.resume .run)
    | pop next frame hopen hadvance hbehind =>
        obtain ⟨m, rfl, hm⟩ := h.tick_of_not_finished hopen
        obtain ⟨fuel, rfl⟩ : ∃ k, fuel = k + 1 := ⟨fuel - 1, by omega⟩
        obtain ⟨c', honEvent⟩ := onEvent_pop c next frame
        rw [hadvance]
        simp only [honEvent]
        rw [Agent.runToEnd, hbehind]
        exact ih m (Nat.lt_succ_self m) c' hm (show 2 * m + 1 ≤ fuel by omega)

end

/-! ## Requests that change nothing -/

/-- Whether a request lets the program go on. The first such request of a stream ends the greeting.
Only there a program can be chosen, since any later request finds the program started. -/
def letsGo : HostMessage → Bool
  | .loadProgram _ | .next | .stepIn | .stepOut | .proceed | .unknown => true
  | _ => false

/-- Requests that leave the program as it is: none assigns to a variable, and the one that ends the
greeting chooses no other program. -/
structure Harmless (s : State) (requests : List HostMessage) : Prop where
  assigns : ∀ reference name value, .setVariable reference name value ∉ requests
  selects : ∀ path, requests.find? letsGo = some (.loadProgram path) →
    (s.selectProgram path).program = s.program

theorem outcome_eq_serve {σ : Type} [Engine σ] (c : Context) (engine : σ) {request : HostMessage}
    (h : letsGo request = false) : (Agent.perform c engine request).2.2.2 = .serve := by
  cases request with
  | getVariables reference =>
      simp only [Agent.perform]
      split <;> rfl
  | setVariable reference name value =>
      simp only [Agent.perform]
      split <;> rfl
  | loadProgram => cases h
  | next => cases h
  | stepIn => cases h
  | stepOut => cases h
  | proceed => cases h
  | unknown => cases h
  | _ => rfl

theorem outcome_eq_go {σ : Type} [Engine σ] (c : Context) (engine : σ) {request : HostMessage}
    (h : letsGo request = true) : ∃ mode, (Agent.perform c engine request).2.2.2 = .go mode := by
  cases request with
  | loadProgram => exact ⟨_, rfl⟩
  | next => exact ⟨_, rfl⟩
  | stepIn => exact ⟨_, rfl⟩
  | stepOut => exact ⟨_, rfl⟩
  | proceed => exact ⟨_, rfl⟩
  | unknown => exact ⟨_, rfl⟩
  | _ => cases h

theorem url_of_ofSource {library : String → Option String} {url source : String} {s : State}
    (h : State.ofSource library url source = .ok s) : s.program.url = url := by
  unfold State.ofSource Machine.Program.ofSource at h
  split at h
  · obtain rfl := Except.ok.inj h
    rfl
  · cases h

theorem selectProgram_of_started {s : State} (h : s.started = true) (path : String) :
    s.selectProgram path = s := by
  rw [State.selectProgram, if_pos (Or.inr h)]

/-- Choosing the program that is there already takes at most the breakpoints away. -/
theorem selectProgram_same {s : State} {path : String}
    (h : (s.selectProgram path).program = s.program) :
    (s.selectProgram path).withBreakpoints [] = s.withBreakpoints [] := by
  unfold State.selectProgram at h ⊢
  split
  · rfl
  · rename_i hother
    rw [if_neg hother] at h
    split
    · rename_i program hload
      rw [hload] at h
      obtain rfl : program = s.program := h
      rfl
    · rfl

theorem program_selectProgram_congr {s s' : State}
    (h : s'.withBreakpoints [] = s.withBreakpoints []) (path : String) :
    (s'.selectProgram path).program = (s.selectProgram path).program := by
  obtain ⟨hprogram, hlibrary, -, -, -, -, -, hstarted, -⟩ := State.mk.inj h
  unfold State.selectProgram
  rw [hprogram, hstarted, hlibrary]
  split
  · exact hprogram
  · split
    · rfl
    · exact hprogram

namespace Harmless

variable {s s' : State} {request : HostMessage} {requests : List HostMessage}

theorem congr (h : Harmless s requests) (hbare : s'.withBreakpoints [] = s.withBreakpoints []) :
    Harmless s' requests where
  assigns := h.assigns
  selects path hpath := by
    rw [program_selectProgram_congr hbare, h.selects path hpath]
    exact (congrArg State.program hbare).symm

/-- Once the program is started, it can not be replaced. -/
theorem of_started (h : Harmless s requests) (hstarted : s'.started = true) :
    Harmless s' requests where
  assigns := h.assigns
  selects path _ := by rw [selectProgram_of_started hstarted]

theorem tail_of_serve (h : Harmless s (request :: requests)) (hserve : letsGo request = false) :
    Harmless s requests where
  assigns reference name value hmem := h.assigns reference name value (List.mem_cons_of_mem _ hmem)
  selects path hpath := h.selects path (by rw [List.find?_cons_of_neg (by simp [hserve]), hpath])

theorem tail_of_started (h : Harmless s (request :: requests)) (hstarted : s'.started = true) :
    Harmless s' requests where
  assigns reference name value hmem := h.assigns reference name value (List.mem_cons_of_mem _ hmem)
  selects path _ := by rw [selectProgram_of_started hstarted]

/-- A harmless request changes nothing of the engine but its breakpoints. -/
theorem perform_bare {r : Recorded} (h : Harmless r.state (request :: requests)) (c : Context) :
    (Agent.perform c r request).2.1.bare = r.bare := by
  cases request with
  | loadProgram path =>
      have hsame := selectProgram_same (h.selects path rfl)
      exact congrArg (fun state => (⟨state, r.executed⟩ : Recorded)) hsame
  | setBreakpoint path line column =>
      simp only [Agent.perform, Breakpoints.set]
      split
      · rfl
      · split
        · rfl
        · simp only [Engine.setBreakpoint]
          split <;> rfl
  | removeBreakpoint id =>
      simp only [Agent.perform, Breakpoints.remove]
      split <;> rfl
  | getVariables reference =>
      simp only [Agent.perform]
      split <;> rfl
  | setVariable reference name value =>
      exact absurd (List.mem_cons_self) (h.assigns reference name value)
  | _ => rfl

end Harmless

/-! ## The agent on course -/

/-- At most `bound` ticks lead the agent's engine to `t`, where it is once the agent has
finished. -/
structure OnCourse (bound : Nat) (t : Recorded) (a : Agent Recorded) : Prop where
  leads : ∃ n, n ≤ bound ∧ LeadsTo n a.engine t
  finished : a.phase = .finished → a.engine.bare = t

namespace OnCourse

variable {bound fuel : Nat} {t : Recorded} {a : Agent Recorded}

theorem of_bare_eq {b : Agent Recorded} (h : OnCourse bound t a)
    (hbare : b.engine.bare = a.engine.bare) (hphase : b.phase = a.phase) : OnCourse bound t b where
  leads := by
    obtain ⟨n, hn, hleads⟩ := h.leads
    exact ⟨n, hn, hleads.of_bare_eq hbare⟩
  finished hfinished := by rw [hbare]; exact h.finished (hphase ▸ hfinished)

end OnCourse

theorem send_fst {σ : Type} (a : Agent σ) (message : DebuggerMessage) :
    (a.send message).1.engine = a.engine ∧ (a.send message).1.phase = a.phase ∧
      (a.send message).1.decoder = a.decoder := by
  unfold Agent.send
  split
  · exact ⟨rfl, rfl, rfl⟩
  · split <;> exact ⟨rfl, rfl, rfl⟩

theorem leave_fst {σ : Type} (a : Agent σ) (mode : RunMode) :
    (a.leave mode).engine = a.engine ∧ (a.leave mode).phase = a.phase ∧
      (a.leave mode).decoder = a.decoder := by
  unfold Agent.leave
  split <;> exact ⟨rfl, rfl, rfl⟩

namespace OnCourse

variable {bound fuel : Nat} {t : Recorded} {a : Agent Recorded}

theorem send (h : OnCourse bound t a) (message : DebuggerMessage) :
    OnCourse bound t (a.send message).1 := by
  obtain ⟨hengine, hphase, -⟩ := send_fst a message
  exact h.of_bare_eq (by rw [hengine]) hphase

/-- To let the program go on keeps the agent on course, and starts the program. -/
theorem go (h : OnCourse bound t a) (hfuel : 2 * bound + 1 ≤ fuel) (mode : RunMode) :
    ∃ b sent, a.go fuel mode = some (b, sent) ∧ OnCourse bound t b ∧
      b.engine.state.started = true ∧ b.decoder = a.decoder := by
  obtain ⟨hengine, -, hdecoder⟩ := leave_fst a mode
  obtain ⟨n, hn, hleads⟩ := h.leads
  obtain ⟨c, r, stop, hrun, hstarted, ⟨m, hm, hleads'⟩, hend⟩ :=
    runWithin_leadsTo (a.leave mode).context (hengine.symm ▸ hleads)
      (show 2 * n + 1 ≤ fuel by omega)
  have hbound : ∃ k, k ≤ bound ∧ LeadsTo k r t := ⟨m, by omega, hleads'⟩
  simp only [Agent.go, hrun]
  rcases stop with _ | stop
  · exact ⟨_, _, rfl, ⟨hbound, fun _ => hend rfl⟩, hstarted, hdecoder⟩
  · have hcourse : OnCourse bound t
        { a.leave mode with context := c, engine := r, phase := .paused } := by
      refine ⟨hbound, ?_⟩
      intro hover
      cases hover
    obtain ⟨hengine', -, hdecoder'⟩ := send_fst
      { a.leave mode with context := c, engine := r, phase := .paused }
      (Agent.announcement c r stop)
    exact ⟨_, _, rfl, hcourse.send _, (congrArg (·.state.started) hengine').trans hstarted,
      hdecoder'.trans hdecoder⟩

/-- A harmless request keeps the agent on course. -/
theorem receive {request : HostMessage} {requests : List HostMessage} (h : OnCourse bound t a)
    (hharmless : Harmless a.engine.state (request :: requests)) (hfuel : 2 * bound + 1 ≤ fuel) :
    ∃ b sent, a.receive fuel request = some (b, sent) ∧ OnCourse bound t b ∧
      Harmless b.engine.state requests ∧ b.decoder = a.decoder := by
  have hbare := hharmless.perform_bare a.context
  rw [Agent.receive]
  cases hgo : letsGo request with
  | true =>
      obtain ⟨mode, hmode⟩ := outcome_eq_go a.context a.engine hgo
      rcases hperform : Agent.perform a.context a.engine request with ⟨c, r, reply, outcome⟩
      rw [hperform] at hbare hmode
      obtain rfl : outcome = .go mode := hmode
      have hcourse : OnCourse bound t { a with context := c, engine := r } :=
        h.of_bare_eq hbare rfl
      obtain ⟨b, sent, hb, hcourse', hstarted, hdecoder⟩ := hcourse.go hfuel mode
      exact ⟨b, sent, hb, hcourse', hharmless.tail_of_started hstarted, hdecoder⟩
  | false =>
      have hserve := outcome_eq_serve a.context a.engine hgo
      rcases hperform : Agent.perform a.context a.engine request with ⟨c, r, reply, outcome⟩
      rw [hperform] at hbare hserve
      obtain rfl : outcome = .serve := hserve
      have hcourse : OnCourse bound t { a with context := c, engine := r } :=
        h.of_bare_eq hbare rfl
      have htail : Harmless r.state requests :=
        (hharmless.tail_of_serve hgo).congr (congrArg Recorded.state hbare)
      cases reply with
      | none => exact ⟨_, _, rfl, hcourse, htail, rfl⟩
      | some reply =>
          obtain ⟨hengine, -, hdecoder⟩ := send_fst { a with context := c, engine := r } reply
          refine ⟨(Agent.send { a with context := c, engine := r } reply).1, _, rfl,
            hcourse.send reply, ?_, hdecoder⟩
          rw [hengine]
          exact htail

/-- Serving what the decoder holds keeps the agent on course; `more` is what is still to come. -/
theorem serve (h : OnCourse bound t a) (limit : Nat) {more : List UInt8}
    (hharmless : Harmless a.engine.state
      ((a.decoder.extend more).messages HostMessage.decode?)) (hfuel : 2 * bound + 1 ≤ fuel) :
    ∃ b sent, a.serve fuel limit = some (b, sent) ∧ OnCourse bound t b ∧
      Harmless b.engine.state ((b.decoder.extend more).messages HostMessage.decode?) := by
  induction limit generalizing a with
  | zero => exact ⟨a, [], rfl, h, hharmless⟩
  | succ limit ih =>
      by_cases hdone : a.phase = .finished ∨ (!a.connected) = true
      · exact ⟨a, [], Agent.serve_of_done hdone, h, hharmless⟩
      · rcases hnext : a.decoder.nextMessage HostMessage.decode? with ⟨d, _ | request⟩
        · refine ⟨{ a with decoder := d }, [], Agent.serve_of_none hdone hnext,
            h.of_bare_eq rfl rfl, ?_⟩
          rw [Decoder.messages_extend_of_none hnext] at hharmless
          exact hharmless
        · rw [Decoder.messages_extend_of_some hnext] at hharmless
          have hcourse : OnCourse bound t { a with decoder := d } := h.of_bare_eq rfl rfl
          obtain ⟨b, sent, hb, hcourse', hharmless', hdecoder⟩ :=
            hcourse.receive hharmless hfuel
          have hrest : Harmless b.engine.state
              ((b.decoder.extend more).messages HostMessage.decode?) := by
            rw [hdecoder]
            exact hharmless'
          obtain ⟨b', sent', hb', hcourse'', hharmless''⟩ := ih hcourse' hrest
          refine ⟨b', sent ++ sent', ?_, hcourse'', hharmless''⟩
          rw [Agent.serve_of_some hdone hnext, hb, Option.bind_some, hb', Option.map_some]

/-- Without the front end, the program runs to its end. -/
theorem hangUp (h : OnCourse bound t a) (hfuel : 2 * bound + 1 ≤ fuel) :
    ∃ b, a.hangUp fuel = some b ∧ b.phase = .finished ∧ OnCourse bound t b ∧
      b.decoder = a.decoder := by
  by_cases hphase : a.phase = .finished
  · refine ⟨{ a with connected := false }, ?_, hphase, h.of_bare_eq rfl rfl, rfl⟩
    rw [Agent.hangUp, hphase]
  · obtain ⟨n, hn, hleads⟩ := h.leads
    obtain ⟨c, r, hrun, hbare⟩ :=
      runToEnd_leadsTo (a.leave .run).context hleads (show 2 * n + 1 ≤ fuel by omega)
    have hhang : a.hangUp fuel = some
        { a with context := c, engine := r, connected := false, phase := .finished } := by
      rw [Agent.hangUp]
      cases hp : a.phase with
      | finished => exact absurd hp hphase
      | _ => simp only [hrun, Option.map_some]
    have hfinished : Finished r.bare := hbare ▸ hleads.finished
    have hend : LeadsTo 0 r t :=
      ⟨hbare, hleads.finished⟩
    exact ⟨_, hhang, rfl, ⟨⟨0, Nat.zero_le bound, hend⟩, fun _ => hbare⟩, rfl⟩

/-- Bytes that come keep the agent on course; `more` is what is still to come. -/
theorem feed (h : OnCourse bound t a) (bytes : List UInt8) {more : List UInt8}
    (hharmless : Harmless a.engine.state
      ((a.decoder.extend (bytes ++ more)).messages HostMessage.decode?))
    (hfuel : 2 * bound + 1 ≤ fuel) :
    ∃ b sent, a.feed fuel bytes = some (b, sent) ∧ OnCourse bound t b ∧
      Harmless b.engine.state ((b.decoder.extend more).messages HostMessage.decode?) := by
  rw [← Decoder.extend_extend] at hharmless
  have hcourse : OnCourse bound t { a with decoder := a.decoder.extend bytes } :=
    h.of_bare_eq rfl rfl
  obtain ⟨b, sent, hb, hcourse', hharmless'⟩ :=
    hcourse.serve ((a.decoder.extend bytes).weight + 1) hharmless hfuel
  simp only [Agent.feed, hb, Option.bind_eq_bind, Option.bind_some]
  split
  · exact ⟨b, sent, rfl, hcourse', hharmless'⟩
  · obtain ⟨b', hb', hphase, hcourse'', hdecoder⟩ := hcourse'.hangUp hfuel
    have hstarted : b'.engine.state.started = true := by
      obtain ⟨n, -, hleads⟩ := hcourse''.leads
      have hbare := hcourse''.finished hphase
      exact (hbare ▸ hleads.finished : Finished b'.engine.bare).started
    refine ⟨b', sent, by rw [hb', Option.map_some], hcourse'', ?_⟩
    rw [hdecoder]
    exact hharmless'.of_started hstarted

/-- A stream of reads keeps the agent on course, and at its end the program is at its own. -/
theorem serveReads (h : OnCourse bound t a) (reads : List Read)
    (hharmless : Harmless a.engine.state
      ((a.decoder.extend (Wire.arriving reads)).messages HostMessage.decode?))
    (hfuel : 2 * bound + 1 ≤ fuel) :
    ∃ b sent, a.serveReads fuel reads = some (b, sent) ∧ b.phase = .finished ∧
      OnCourse bound t b := by
  induction reads generalizing a with
  | nil =>
      obtain ⟨b, hb, hphase, hcourse, -⟩ := h.hangUp hfuel
      exact ⟨b, [], by rw [Agent.serveReads, hb, Option.map_some], hphase, hcourse⟩
  | cons read reads ih =>
      cases read with
      | failed =>
          obtain ⟨b, hb, hphase, hcourse, -⟩ := h.hangUp hfuel
          exact ⟨b, [], by rw [Agent.serveReads, hb, Option.map_some], hphase, hcourse⟩
      | interrupted => exact ih h hharmless
      | bytes bytes =>
          obtain ⟨b, sent, hb, hcourse, hharmless'⟩ := h.feed bytes hharmless hfuel
          obtain ⟨b', more, hb', hphase, hcourse'⟩ := ih hcourse hharmless'
          refine ⟨b', sent ++ more, ?_, hphase, hcourse'⟩
          simp only [Agent.serveReads, hb, Option.bind_eq_bind, Option.bind_some, hb']

end OnCourse

/-! ## A whole life of an agent -/

/-- **Debugging is transparent.** Let the program of `s` come to its end, alone, in `t`. Then an
agent that holds `s` comes to an end under every stream of reads that carries only harmless
requests, whether the link to the front end holds or breaks after some number of messages. Its
engine has then executed the instructions that the program executes alone, in the same order, and
has the same output and the same objects; no frame and no deferred call is left. -/
theorem run_transparent {s t : State} (hruns : s.Runs t) (capacity : Option Nat)
    (reads : List Read)
    (hassigns : ∀ reference name value,
      .setVariable reference name value ∉ Wire.carried HostMessage.decode? reads)
    (hselects : ∀ path,
      (Wire.carried HostMessage.decode? reads).find? letsGo = some (.loadProgram path) →
        (s.selectProgram path).program = s.program) :
    ∃ executed, Recorded.Runs ⟨s, []⟩ ⟨t, executed⟩ ∧
      ∃ bound, ∀ fuel, bound ≤ fuel → ∃ a sent,
        Agent.run fuel (⟨s, []⟩ : Recorded) capacity reads = some (a, sent) ∧
        Agent.run fuel s capacity reads = some (a.withEngine Recorded.state, sent) ∧
        a.phase = .finished ∧ a.engine.executed = executed ∧
        a.engine.state.output = t.output ∧ a.engine.state.heap = t.heap ∧
        a.engine.state.stack = [] ∧ a.engine.state.deferred = [] := by
  obtain ⟨executed, hrecord⟩ := Recorded.runs_record hruns
  refine ⟨executed, hrecord, ?_⟩
  obtain ⟨n, hleads⟩ := hrecord.leadsTo
  refine ⟨2 * n + 1, fun fuel hfuel => ?_⟩
  have hcourse : OnCourse n (Recorded.bare ⟨t, executed⟩)
      { engine := (⟨s, []⟩ : Recorded), context := .initial, decoder := {}, phase := .greeting,
        connected := true, capacity } := by
    refine ⟨⟨n, Nat.le_refl n, hleads⟩, ?_⟩
    intro hover
    cases hover
  have hstart := hcourse.send .connect
  obtain ⟨hengine, -, hdecoder⟩ := send_fst
    ({ engine := (⟨s, []⟩ : Recorded), context := .initial, decoder := {}, phase := .greeting,
       connected := true, capacity } : Agent Recorded) .connect
  have hharmless : Harmless s (Wire.carried HostMessage.decode? reads) := ⟨hassigns, hselects⟩
  obtain ⟨a, sent, ha, hphase, hend⟩ := hstart.serveReads reads
    (by rw [hengine, hdecoder]; exact hharmless) hfuel
  have hrun : Agent.run fuel (⟨s, []⟩ : Recorded) capacity reads =
      some (a, (Agent.start (⟨s, []⟩ : Recorded) capacity).2 ++ sent) := by
    simp only [Agent.run]
    change (Agent.serveReads fuel (Agent.send _ .connect).1 reads).bind _ = _
    rw [ha]
    rfl
  refine ⟨a, _, hrun, ?_, hphase, ?_⟩
  · rw [show s = Recorded.state ⟨s, []⟩ from rfl,
      morphism_recorded.run fuel (⟨s, []⟩ : Recorded) capacity reads, hrun, Option.map_some]
  · have hbare : a.engine.bare = Recorded.bare ⟨t, executed⟩ := hend.finished hphase
    have hfinished : Finished a.engine.bare := hbare ▸ hleads.finished
    obtain ⟨hstate, hexecuted⟩ := Recorded.mk.inj hbare
    obtain ⟨-, -, -, -, hheap, -, -, -, houtput⟩ := State.mk.inj hstate
    exact ⟨hexecuted, houtput, hheap, hfinished.stack, hfinished.deferred⟩

/-- A stream that names the program, has a line in it that is no length, steps, and breaks off. -/
private def brokenStream : List Read :=
  [.bytes (HostMessage.encode (.loadProgram "main.mod")), .interrupted, .bytes [120, 10],
    .bytes (HostMessage.encode .stepIn), .failed]

private theorem carried_brokenStream :
    Wire.carried HostMessage.decode? brokenStream = [.loadProgram "main.mod", .stepIn] := by
  have hload : Decoder.next ⟨Wire.arriving brokenStream, none⟩ =
      (⟨[120, 10] ++ HostMessage.encode .stepIn, none⟩,
        some (.payload
          [123, 34, 116, 121, 112, 101, 34, 58, 34, 108, 111, 97, 100, 80, 114, 111, 103, 114, 97,
            109, 34, 44, 34, 112, 97, 116, 104, 34, 58, 34, 109, 97, 105, 110, 46, 109, 111, 100,
            34, 125])) := by decide +kernel
  have hjunk : Decoder.next ⟨[120, 10] ++ HostMessage.encode .stepIn, none⟩ =
      (⟨HostMessage.encode .stepIn, none⟩, some (.malformed "x")) := by decide +kernel
  have hstep : Decoder.next ⟨HostMessage.encode .stepIn, none⟩ =
      (⟨[], none⟩, some (.payload
        [123, 34, 116, 121, 112, 101, 34, 58, 34, 115, 116, 101, 112, 73, 110, 34, 125])) := by
    decide +kernel
  have hend : Decoder.next ⟨[], none⟩ = (⟨[], none⟩, none) := rfl
  have hfirst : Decoder.nextMessage HostMessage.decode? ⟨Wire.arriving brokenStream, none⟩ =
      (⟨[120, 10] ++ HostMessage.encode .stepIn, none⟩, some (.loadProgram "main.mod")) := by
    rw [Decoder.nextMessage_of_payload hload]
    rfl
  have hlast :
      Decoder.nextMessage HostMessage.decode? ⟨[120, 10] ++ HostMessage.encode .stepIn, none⟩ =
        (⟨[], none⟩, some .stepIn) := by
    rw [Decoder.nextMessage_of_malformed hjunk, Decoder.nextMessage_of_payload hstep]
    rfl
  rw [Wire.carried, Decoder.messages_of_some hfirst, Decoder.messages_of_some hlast,
    Decoder.messages_of_none (Decoder.nextMessage_of_none hend)]

/-- A program with a call, stepped into once by a front end that then goes away. -/
theorem run_transparent_broken_stream :
    ∃ s t : State,
      State.ofSource (fun _ => none) "main.mod" "function f\n  print \"hi\"\nend\ncall f\n" =
        .ok s ∧
      s.Runs t ∧ t.output = ["hi"] ∧
      Wire.carried HostMessage.decode? brokenStream = [.loadProgram "main.mod", .stepIn] ∧
      (s.selectProgram "main.mod").program = s.program ∧
      ∃ executed, Recorded.Runs ⟨s, []⟩ ⟨t, executed⟩ ∧
        ∃ bound, ∀ fuel, bound ≤ fuel → ∃ a sent,
          Agent.run fuel (⟨s, []⟩ : Recorded) (some 2) brokenStream = some (a, sent) ∧
          Agent.run fuel s (some 2) brokenStream = some (a.withEngine Recorded.state, sent) ∧
          a.phase = .finished ∧ a.engine.executed = executed ∧
          a.engine.state.output = t.output ∧ a.engine.state.heap = t.heap ∧
          a.engine.state.stack = [] ∧ a.engine.state.deferred = [] := by
  have hcomputed :
      ((Machine.Program.ofSource "main.mod"
          "function f\n  print \"hi\"\nend\ncall f\n").toOption.bind
        fun program =>
          (State.runWithin 20 (State.initial (fun _ => none) program)).map (·.output)) =
      some ["hi"] := by cbv
  obtain ⟨program, hprogram, houtput⟩ := Machine.Program.exists_of_ofSource hcomputed
  obtain ⟨t, hrun, houtput⟩ := Option.map_eq_some_iff.1 houtput
  generalize hinitial : State.initial (fun _ => none) program = s at hrun
  have hsource : State.ofSource (fun _ => none) "main.mod"
      "function f\n  print \"hi\"\nend\ncall f\n" = .ok s := by
    rw [State.ofSource, hprogram, ← hinitial]
    rfl
  have hurl : "main.mod" = s.program.url := (url_of_ofSource hsource).symm
  have hselect : (s.selectProgram "main.mod").program = s.program := by
    rw [State.selectProgram, if_pos (Or.inl hurl)]
  have hcarried := carried_brokenStream
  refine ⟨s, t, hsource, ⟨20, hrun⟩, houtput, hcarried, hselect,
    run_transparent ⟨20, hrun⟩ (some 2) brokenStream ?_ ?_⟩
  · intro reference name value hmem
    rw [hcarried] at hmem
    simp at hmem
  · intro path hpath
    rw [hcarried] at hpath
    obtain rfl : "main.mod" = path := by simpa [letsGo] using hpath
    exact hselect

end ScriptDebugger.Debug
