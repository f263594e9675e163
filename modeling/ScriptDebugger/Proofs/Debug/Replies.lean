import ScriptDebugger.Proofs.Debug.Requests
import ScriptDebugger.Proofs.Debug.Transparency
/-!
# Replies

The front end counts on one reply to each of its messages, of the kind that the message asks for. A
question is answered at once, with what was asked for or with a refusal. A message that lets the
program go on is answered by the announcement of the next stop. There is no reply where the program
runs to its end or the link breaks, and then nothing is served any more; nor is there one to the
messages that turn the log on and off.

The first stop of a program is announced as its loading. No later one is, so a session that has its
program never takes the announcement of a stop for anything else.

## Main results

* `runWithin_marks` — which stop is the first one.
* `Agent.settles_receive` — one reply of the right kind, or none, and the program counts as loaded
  from the announcement of its loading on.
-/

namespace ScriptDebugger.Debug

open Wire (HostMessage DebuggerMessage)

/-! ## The first stop -/

/-- What happened to the mark that the program is loaded: it is never taken back, and it is set by
the stop for the loading. -/
structure Marks (before after : Bool) (stop : Option Stop) : Prop where
  kept : before = true → after = true
  first : ∀ s, stop = some s → s.reason = .loaded → before = false ∧ after = true

/-- Where there is no stop, the mark is only kept. -/
theorem marks_none {before after : Bool} (h : before = true → after = true) :
    Marks before after none :=
  ⟨h, fun _ hnone => by cases hnone⟩

theorem Marks.trans {before between after : Bool} {stop : Option Stop}
    (h : Marks before between none) (h' : Marks between after stop) : Marks before after stop where
  kept hbefore := h'.kept (h.kept hbefore)
  first s hstop hreason := by
    obtain ⟨hbetween, hafter⟩ := h'.first s hstop hreason
    refine ⟨?_, hafter⟩
    cases before with
    | false => rfl
    | true => exact absurd (h.kept rfl) (by rw [hbetween]; decide)

section

variable {σ : Type} [Engine σ]

theorem Stepper.pause_marks (s : Stepper) (engine : σ) (frame : FrameId) {reason : StopReason}
    (hreason : reason ≠ .loaded) :
    Marks s.loaded (s.pause engine frame reason).1.loaded (s.pause engine frame reason).2 where
  kept h := h
  first stop hstop hloaded := by
    obtain rfl := Option.some.inj hstop
    exact absurd hloaded hreason

theorem Stepper.onEvent_marks (s : Stepper) (engine : σ) (event : Event) :
    Marks s.loaded (s.onEvent engine event).1.loaded (s.onEvent engine event).2 := by
  have hquiet : Marks s.loaded s.loaded none := marks_none id
  cases event with
  | finished => exact hquiet
  | enterFrame frame =>
      rw [onEvent]
      split
      · exact hquiet
      · split
        · exact pause_marks s engine frame StopReason.noConfusion
        · rename_i hloaded
          exact ⟨fun _ => rfl, fun _ _ _ => ⟨Bool.eq_false_iff.2 hloaded, rfl⟩⟩
  | step frame =>
      rw [onEvent]
      split
      · exact hquiet
      · split
        · exact hquiet
        · exact pause_marks s engine frame StopReason.noConfusion
  | pop frame =>
      rw [onEvent]
      split
      · exact hquiet
      · rw [leave]
        dsimp only
        split <;> exact hquiet
  | breakpoint frame offset => exact pause_marks s engine frame StopReason.noConfusion

/-- A run stops for the loading once, and counts the program as loaded from then on. -/
theorem runWithin_marks {fuel : Nat} {c c' : Context} {engine engine' : σ} {stop : Option Stop}
    (h : c.runWithin fuel engine = some (c', engine', stop)) :
    Marks c.stepper.loaded c'.stepper.loaded stop := by
  refine runWithin_induct (P := fun c _ => Marks c.stepper.loaded c'.stepper.loaded stop)
    (fun _ _ _ _ ih => ih) (fun _ hnone _ => hnone ▸ marks_none id)
    (fun c d _ next event _ _ hevent ih => ?_) (fun c _ event reason _ hsome _ hevent => ?_) h
  · obtain ⟨hstepper, hdecision⟩ := stepper_of_onEvent hevent
    have hmarks := c.stepper.onEvent_marks next event
    rw [← hstepper, ← hdecision] at hmarks
    exact hmarks.trans ih
  · obtain ⟨hstepper, hdecision⟩ := stepper_of_onEvent hevent
    have hmarks := c.stepper.onEvent_marks engine' event
    rwa [← hstepper, ← hdecision, ← hsome] at hmarks

end

/-! ## Kinds of replies -/

/-- Whether a reply is of the kind that a message asks for. Whatever lets the program go on asks for
the announcement of a stop. -/
def IsReply (reply : DebuggerMessage) : HostMessage → Prop
  | .loadProgram _ | .proceed | .next | .stepIn | .stepOut | .unknown =>
    (∃ path, reply = .programLoaded path) ∨ reply = .stopOnStep ∨ ∃ id, reply = .stopOnBreakpoint id
  | .getBreakpointsForLine _ _ _ => ∃ locations, reply = .breakpointsForLine locations
  | .setBreakpoint _ line column => ∃ id, reply = .breakpointSet id ⟨line, column⟩
  | .removeBreakpoint id => ∃ removed, reply = .breakpointRemoved id removed
  | .getStack _ _ => (∃ frames, reply = .stack frames) ∨ ∃ text, reply = .error text
  | .getScopes _ => (∃ items, reply = .scopes items) ∨ ∃ text, reply = .error text
  | .getVariables _ => (∃ items, reply = .variableList items) ∨ ∃ text, reply = .error text
  | .setVariable _ _ _ => (∃ v, reply = .variableSet v) ∨ ∃ text, reply = .error text
  | .startDebugLogging | .stopDebugLogging => False

/-- Whether a message turns the log on or off. -/
def IsToggle : HostMessage → Prop
  | .startDebugLogging | .stopDebugLogging => True
  | _ => False

/-- No question is answered by the announcement of a loading. -/
theorem ne_programLoaded {reply : DebuggerMessage} {message : HostMessage}
    (h : IsReply reply message) (hgo : letsGo message = false) (path : String) :
    reply ≠ .programLoaded path := by
  rintro rfl
  cases message with
  | startDebugLogging | stopDebugLogging => exact h
  | getBreakpointsForLine | setBreakpoint | removeBreakpoint =>
      obtain ⟨_, hsame⟩ := h
      cases hsame
  | getStack | getScopes | getVariables | setVariable =>
      rcases h with ⟨_, hsame⟩ | ⟨_, hsame⟩ <;> cases hsame
  | _ => cases hgo

section

variable {σ : Type} [Engine σ]

/-- The announcement of a stop answers whatever lets the program go on. -/
theorem isReply_announcement (c : Context) (engine : σ) (stop : Stop) {message : HostMessage}
    (h : letsGo message = true) : IsReply (Agent.announcement c engine stop) message := by
  have hkind : (∃ path, Agent.announcement c engine stop = .programLoaded path) ∨
      Agent.announcement c engine stop = .stopOnStep ∨
      ∃ id, Agent.announcement c engine stop = .stopOnBreakpoint id := by
    rw [Agent.announcement]
    cases stop.reason with
    | loaded => exact .inl ⟨_, rfl⟩
    | step => exact .inr (.inl rfl)
    | breakpoint offset => exact .inr (.inr ⟨_, rfl⟩)
  cases message with
  | loadProgram | proceed | next | stepIn | stepOut | unknown => exact hkind
  | _ => cases h

/-- Only the loading is announced as such. -/
theorem reason_of_announcement {c : Context} {engine : σ} {stop : Stop} {path : String}
    (h : Agent.announcement c engine stop = .programLoaded path) : stop.reason = .loaded := by
  rw [Agent.announcement] at h
  cases hreason : stop.reason with
  | loaded => rfl
  | step =>
      rw [hreason] at h
      cases h
  | breakpoint offset =>
      rw [hreason] at h
      cases h

theorem perform_stepper (c : Context) (engine : σ) (message : HostMessage) :
    (Agent.perform c engine message).1.stepper = c.stepper := by
  cases message with
  | getVariables reference =>
      rw [Agent.perform]
      rcases hitems : c.variablesBehind engine reference with e | ⟨d, items⟩
      · rfl
      · show d.stepper = c.stepper
        exact variablesBehind_stepper hitems
  | setVariable reference name value =>
      rw [Agent.perform]
      rcases hset : c.setVariable engine reference name value with ⟨next, e | ⟨d, v⟩⟩
      · rfl
      · show d.stepper = c.stepper
        exact setVariable_stepper hset
  | _ => rfl

/-- A question is answered with what was asked for, or with a refusal. -/
theorem perform_reply (c : Context) (engine : σ) {message : HostMessage}
    (h : letsGo message = false) :
    (∃ reply, (Agent.perform c engine message).2.2.1 = some reply ∧ IsReply reply message) ∨
      (Agent.perform c engine message).2.2.1 = none ∧ IsToggle message := by
  cases message with
  | startDebugLogging | stopDebugLogging => exact .inr ⟨rfl, trivial⟩
  | getBreakpointsForLine | setBreakpoint | removeBreakpoint =>
      exact .inl ⟨_, rfl, _, rfl⟩
  | getStack index count =>
      refine .inl ⟨_, rfl, ?_⟩
      cases c.stack engine index count with
      | error e => exact .inr ⟨_, rfl⟩
      | ok frames => exact .inl ⟨_, rfl⟩
  | getScopes frameId =>
      refine .inl ⟨_, rfl, ?_⟩
      cases c.scopes engine frameId with
      | error e => exact .inr ⟨_, rfl⟩
      | ok items => exact .inl ⟨_, rfl⟩
  | getVariables reference =>
      rw [Agent.perform]
      cases c.variablesBehind engine reference with
      | error e => exact .inl ⟨_, rfl, .inr ⟨_, rfl⟩⟩
      | ok result => exact .inl ⟨_, rfl, .inl ⟨_, rfl⟩⟩
  | setVariable reference name value =>
      rw [Agent.perform]
      rcases c.setVariable engine reference name value with ⟨next, e | ⟨d, v⟩⟩
      · exact .inl ⟨_, rfl, .inr ⟨_, rfl⟩⟩
      · exact .inl ⟨_, rfl, .inl ⟨_, rfl⟩⟩
  | _ => cases h

end

/-! ## Agents -/

namespace Agent

variable {σ : Type}

/-- Whether an agent serves nothing any more: the program has ended, or the front end is gone. -/
def IsGone (a : Agent σ) : Prop := a.phase = .finished ∨ a.connected = false

/-- What a message brings about that leaves the agent as `a`: one reply of its kind, or none, if it
asks for none or if nothing is served any more. -/
inductive Reaction (message : HostMessage) (a : Agent σ) : List DebuggerMessage → Prop
  | replied {reply : DebuggerMessage} (hkind : IsReply reply message)
    (hconnected : a.connected = true) : Reaction message a [reply]
  | silent (h : IsToggle message ∨ a.IsGone) : Reaction message a []

/-- What sending touches, and whether the message was sent. -/
theorem send_cases (a : Agent σ) (message : DebuggerMessage) :
    (a.send message).1.context = a.context ∧ (a.send message).1.decoder = a.decoder ∧
      ((a.send message).2 = [message] ∧ (a.send message).1.connected = true ∨
        (a.send message).2 = [] ∧ (a.send message).1.connected = false) := by
  unfold send
  split
  · rename_i hgone
    exact ⟨rfl, rfl, .inr ⟨rfl, by simpa using hgone⟩⟩
  · rename_i hthere
    have hconnected : a.connected = true := by simpa using hthere
    split
    · exact ⟨rfl, rfl, .inl ⟨rfl, hconnected⟩⟩
    · exact ⟨rfl, rfl, .inr ⟨rfl, rfl⟩⟩
    · exact ⟨rfl, rfl, .inl ⟨rfl, hconnected⟩⟩

theorem send_reaction (a : Agent σ) {message : HostMessage} {reply : DebuggerMessage}
    (h : IsReply reply message) : Reaction message (a.send reply).1 (a.send reply).2 := by
  obtain ⟨-, -, ⟨hsent, hconnected⟩ | ⟨hsent, hconnected⟩⟩ := send_cases a reply
  · rw [hsent]
    exact .replied h hconnected
  · rw [hsent]
    exact .silent (.inr (.inr hconnected))

theorem leave_loaded (a : Agent σ) (mode : RunMode) :
    (a.leave mode).context.stepper.loaded = a.context.stepper.loaded := by
  unfold leave
  split
  · show (a.context.stepper.resume mode).loaded = _
    rw [Stepper.resume]
    split <;> rfl
  · rfl
  · rfl

variable {a b : Agent σ} {fuel : Nat} {sent : List DebuggerMessage}

/-- What an agent `a` makes of a message: it gets to `b`, with what it sends. -/
structure Settles (message : HostMessage) (a b : Agent σ) (sent : List DebuggerMessage) : Prop where
  /-- What came behind the message is left. -/
  decoder : b.decoder = a.decoder
  /-- There is one reply, or none. -/
  reaction : Reaction message b sent
  /-- A program that counts as loaded goes on to do so. -/
  kept : a.context.stepper.loaded = true → b.context.stepper.loaded = true
  /-- The loading is announced once, and the program counts as loaded from then on. -/
  first : ∀ path, .programLoaded path ∈ sent →
    a.context.stepper.loaded = false ∧ b.context.stepper.loaded = true

/-- The agent sends its reply. -/
theorem settles_send {message : HostMessage} {reply : DebuggerMessage} {d : Agent σ}
    (hreply : IsReply reply message) (hdecoder : d.decoder = a.decoder)
    (hkept : a.context.stepper.loaded = true → d.context.stepper.loaded = true)
    (hfirst : ∀ path, reply = .programLoaded path →
      a.context.stepper.loaded = false ∧ d.context.stepper.loaded = true)
    (h : d.send reply = (b, sent)) : Settles message a b sent := by
  have hreaction := send_reaction d hreply
  obtain ⟨hcontext, hsame, hsent⟩ := send_cases d reply
  rw [h] at hreaction hcontext hsame hsent
  refine ⟨hsame.trans hdecoder, hreaction, ?_, fun path hpath => ?_⟩
  · rw [show b.context = d.context from hcontext]
    exact hkept
  · rw [show b.context = d.context from hcontext]
    rcases hsent with ⟨rfl, -⟩ | ⟨rfl, -⟩
    · exact hfirst path (List.mem_singleton.1 hpath).symm
    · cases hpath

section

variable [Engine σ]

theorem settles_go {message : HostMessage} (hmessage : letsGo message = true) {mode : RunMode}
    (h : a.go fuel mode = some (b, sent)) : Settles message a b sent := by
  obtain ⟨-, -, hdecoder⟩ := leave_fst a mode
  rw [go] at h
  rcases hrun : (a.leave mode).context.runWithin fuel (a.leave mode).engine with _ | ⟨c, s, stop⟩
  · simp [hrun] at h
  · have hmarks := runWithin_marks hrun
    rw [leave_loaded] at hmarks
    simp only [hrun] at h
    cases stop with
    | none =>
        obtain ⟨rfl, rfl⟩ := Prod.mk.inj (Option.some.inj h)
        exact ⟨hdecoder, .silent (.inr (.inl rfl)), hmarks.kept, fun _ hnone => by cases hnone⟩
    | some stop =>
        exact settles_send
          (d := { a.leave mode with context := c, engine := s, phase := .paused })
          (isReply_announcement c s stop hmessage) hdecoder hmarks.kept
          (fun path hpath => hmarks.first stop rfl (reason_of_announcement hpath))
          (Option.some.inj h)

/-- Every message has one reply of its kind, or none if it asks for none, the program ends or the
link breaks. -/
theorem settles_receive {message : HostMessage} (h : a.receive fuel message = some (b, sent)) :
    Settles message a b sent := by
  have hstepper := perform_stepper a.context a.engine message
  have hkind : letsGo message = false → _ := perform_reply a.context a.engine
  have hserve : letsGo message = false → _ := outcome_eq_serve a.context a.engine
  have hgo : letsGo message = true → _ := outcome_eq_go a.context a.engine
  rw [receive] at h
  generalize perform a.context a.engine message = performed at h hstepper hkind hserve hgo
  obtain ⟨c, s, reply, outcome⟩ := performed
  cases hmessage : letsGo message with
  | true =>
      obtain ⟨mode, hmode⟩ := hgo hmessage
      obtain rfl : outcome = .go mode := hmode
      obtain ⟨hdecoder, hreaction, hkept, hfirst⟩ := settles_go hmessage h
      rw [show c.stepper = a.context.stepper from hstepper] at hkept hfirst
      exact ⟨hdecoder, hreaction, hkept, hfirst⟩
  | false =>
      obtain rfl : outcome = .serve := hserve hmessage
      have hloaded : c.stepper.loaded = a.context.stepper.loaded := congrArg Stepper.loaded hstepper
      rcases hkind hmessage with ⟨answer, hanswer, hreply⟩ | ⟨hnone, htoggle⟩
      · obtain rfl : reply = some answer := hanswer
        exact settles_send (d := { a with context := c, engine := s }) hreply rfl hloaded.trans
          (fun path hpath => absurd hpath (ne_programLoaded hreply hmessage path))
          (Option.some.inj h)
      · obtain rfl : reply = none := hnone
        obtain ⟨rfl, rfl⟩ := Prod.mk.inj (Option.some.inj h)
        exact ⟨rfl, .silent (.inl htoggle), hloaded.trans, fun _ hnone => by cases hnone⟩

/-- The front end is gone for good, and nothing is read any more. -/
theorem hangUp_isGone (h : a.hangUp fuel = some b) : b.IsGone ∧ b.decoder = a.decoder := by
  rw [hangUp] at h
  split at h
  · obtain rfl := Option.some.inj h
    exact ⟨.inr rfl, rfl⟩
  all_goals
    obtain ⟨result, -, rfl⟩ := Option.map_eq_some_iff.1 h
    exact ⟨.inr rfl, rfl⟩

end

end Agent

end ScriptDebugger.Debug
