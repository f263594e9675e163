import ScriptDebugger.Proofs.Debug.Reached
import ScriptDebugger.Proofs.Debug.Replies
import ScriptDebugger.Proofs.Debug.Serving
/-!
# The pauses of an agent

Whatever bytes an agent is fed, its debugger and its machine are reached by requests, commands and
runs. So what holds in every pause that is reached holds in every pause that an agent announces.

## Main results

* `Agent.go_inv`, `Agent.receive_inv` — what stands behind a message that was served.
* `Within.receive` — a message keeps an agent within what is reached.
* `Within.serving` — so does serving, as long as the front end stays.
-/

namespace ScriptDebugger.Debug

open Machine (State Program)
open Wire (HostMessage DebuggerMessage)

/-- An agent whose debugger and machine are reached; outside its pauses there is no paused frame. -/
structure Within (a : Agent State) : Prop where
  reached : Reached a.context a.engine
  running : a.phase ≠ .paused → a.context.stepper.paused = none

/-- Messages that let the program go on leave the debugger alone. -/
theorem perform_go {c c' : Context} {s s' : State} {message : HostMessage}
    {reply : Option DebuggerMessage} {mode : RunMode}
    (h : Agent.perform c s message = (c', s', reply, .go mode)) :
    c' = c ∧ (s' = s ∨ ∃ path, s' = Engine.selectProgram s path) := by
  have houtcome : (Agent.perform c s message).2.2.2 = .go mode := congrArg (·.2.2.2) h
  have hcontext : (Agent.perform c s message).1 = c' := congrArg (·.1) h
  have hengine : (Agent.perform c s message).2.1 = s' := congrArg (·.2.1) h
  subst hcontext hengine
  cases hgo : letsGo message with
  | false =>
      rw [outcome_eq_serve c s hgo] at houtcome
      cases houtcome
  | true =>
      cases message with
      | loadProgram path => exact ⟨rfl, Or.inr ⟨path, rfl⟩⟩
      | next => exact ⟨rfl, Or.inl rfl⟩
      | stepIn => exact ⟨rfl, Or.inl rfl⟩
      | stepOut => exact ⟨rfl, Or.inl rfl⟩
      | proceed => exact ⟨rfl, Or.inl rfl⟩
      | unknown => exact ⟨rfl, Or.inl rfl⟩
      | _ => cases hgo

namespace Agent

variable {a b : Agent State} {fuel : Nat} {sent : List DebuggerMessage}

theorem send_inv {message : DebuggerMessage} (h : a.send message = (b, sent)) :
    b.context = a.context ∧ b.engine = a.engine ∧ b.phase = a.phase ∧
      (sent = [] ∨ sent = [message]) := by
  obtain ⟨hengine, hphase, -⟩ := send_fst a message
  obtain ⟨hcontext, -, hsent⟩ := send_cases a message
  rw [h] at hengine hphase hcontext hsent
  refine ⟨hcontext, hengine, hphase, ?_⟩
  rcases hsent with ⟨hsent, -⟩ | ⟨hsent, -⟩
  · exact Or.inr hsent
  · exact Or.inl hsent

/-- What let the program go on brought it to its end, or to a stop, which was announced if the link
holds. -/
theorem go_inv {mode : RunMode} (h : a.go fuel mode = some (b, sent)) :
    ∃ stop, (a.leave mode).context.runWithin fuel a.engine = some (b.context, b.engine, stop) ∧
      (stop = none ∧ b.phase = .finished ∧ sent = [] ∨
        ∃ reason, stop = some reason ∧ b.phase = .paused ∧
          (sent = [] ∨ sent = [announcement b.context b.engine reason])) := by
  rw [go] at h
  rcases hrun : (a.leave mode).context.runWithin fuel (a.leave mode).engine with _ | ⟨c, s, stop⟩
  · simp [hrun] at h
  · simp only [hrun] at h
    rw [(leave_fst a mode).1] at hrun
    cases stop with
    | none =>
        obtain ⟨rfl, rfl⟩ := Prod.mk.inj (Option.some.inj h)
        exact ⟨none, hrun, Or.inl ⟨rfl, rfl, rfl⟩⟩
    | some reason =>
        obtain ⟨rfl, rfl, hphase, hsent⟩ := send_inv (Option.some.inj h)
        exact ⟨some reason, hrun, Or.inr ⟨reason, rfl, hphase, hsent⟩⟩

/-- A message that was served let the program go on, perhaps another one than before, or it was
answered. -/
theorem receive_inv {message : HostMessage} (h : a.receive fuel message = some (b, sent)) :
    (∃ mode s, (s = a.engine ∨ ∃ path, s = Engine.selectProgram a.engine path) ∧
      ({ a with engine := s } : Agent State).go fuel mode = some (b, sent)) ∨
    ∃ reply, perform a.context a.engine message = (b.context, b.engine, reply, .serve) ∧
      b.phase = a.phase ∧ (sent = [] ∨ ∃ answer, reply = some answer ∧ sent = [answer]) := by
  rcases hperform : perform a.context a.engine message with ⟨c, s, reply, outcome⟩
  rw [receive] at h
  simp only [hperform] at h
  cases outcome with
  | go mode =>
      obtain ⟨rfl, hchosen⟩ := perform_go hperform
      exact Or.inl ⟨mode, s, hchosen, h⟩
  | serve =>
      cases reply with
      | none =>
          obtain ⟨rfl, rfl⟩ := Prod.mk.inj (Option.some.inj h)
          exact Or.inr ⟨none, rfl, rfl, Or.inl rfl⟩
      | some answer =>
          obtain ⟨rfl, rfl, hphase, hsent⟩ := send_inv (Option.some.inj h)
          exact Or.inr ⟨some answer, rfl, hphase, hsent.imp id fun hsent => ⟨answer, rfl, hsent⟩⟩

end Agent

namespace Within

variable {a b : Agent State} {fuel : Nat} {sent : List DebuggerMessage}

theorem of_eq (h : Within a) (hcontext : b.context = a.context) (hengine : b.engine = a.engine)
    (hphase : b.phase = a.phase) : Within b where
  reached := by
    rw [hcontext, hengine]
    exact h.reached
  running := by
    rw [hcontext, hphase]
    exact h.running

theorem send (h : Within a) (message : DebuggerMessage) : Within (a.send message).1 := by
  unfold Agent.send
  split
  · exact h
  · split <;> exact h.of_eq rfl rfl rfl

/-- A new agent for a compiled program. -/
theorem start {library : String → Option String} {url source : String} {program : Program}
    (hsource : Program.ofSource url source = .ok program) (capacity : Option Nat) :
    Within (Agent.start (State.initial library program) capacity).1 := by
  refine send ⟨.start hsource, ?_⟩ .connect
  intro _
  rfl

theorem leave (h : Within a) (mode : RunMode) :
    Reached (a.leave mode).context (a.leave mode).engine ∧
      (a.leave mode).context.stepper.paused = none := by
  unfold Agent.leave
  split
  · refine ⟨h.reached.resume mode, ?_⟩
    cases hpaused : a.context.stepper.paused with
    | none => simp only [Context.resume, Stepper.resume, hpaused]
    | some frame => simp only [Context.resume, Stepper.resume, hpaused]
  · rename_i hphase
    refine ⟨h.reached, h.running ?_⟩
    rw [hphase]
    intro hpause
    cases hpause
  · rename_i hphase
    refine ⟨h.reached, h.running ?_⟩
    rw [hphase]
    intro hpause
    cases hpause

/-- A run to the next stop, or to the end. -/
theorem go (h : Within a) {mode : RunMode} (hgo : a.go fuel mode = some (b, sent)) : Within b := by
  obtain ⟨hreached, hrunning⟩ := h.leave mode
  rw [(leave_fst a mode).1] at hreached
  obtain ⟨stop, hrun, hstop⟩ := Agent.go_inv hgo
  refine ⟨hreached.run hrunning hrun, ?_⟩
  intro hphase
  rcases hstop with ⟨rfl, -⟩ | ⟨reason, -, hpaused, -⟩
  · exact (hreached.steady.runWithin hrunning hrun).2
  · exact absurd hpaused hphase

/-- A message keeps an agent within what is reached. -/
theorem receive (h : Within a) {message : HostMessage}
    (hreceive : a.receive fuel message = some (b, sent)) : Within b := by
  rcases Agent.receive_inv hreceive with ⟨mode, s, hchosen, hgo⟩ | ⟨reply, hperform, hphase, -⟩
  · have hreached : Reached a.context s := by
      rcases hchosen with rfl | ⟨path, rfl⟩
      · exact h.reached
      · exact h.reached.select path
    have hnext : Within { a with engine := s } := ⟨hreached, h.running⟩
    exact hnext.go hgo
  · obtain ⟨-, hstepper⟩ := touched_perform hperform
    refine ⟨h.reached.serve hperform, ?_⟩
    intro hnot
    rw [hphase] at hnot
    exact (congrArg Stepper.paused hstepper).trans (h.running hnot)

/-- Serving keeps an agent within what is reached, as long as the front end stays. -/
theorem serving (h : Within a) (hserving : Agent.Serving fuel a sent b)
    (hconnected : b.connected = true) : Within b := by
  induction hserving with
  | rest => exact h
  | bytes decoder hserving ih => exact ih (h.of_eq rfl rfl rfl) hconnected
  | message _ _ hreceive hserving ih => exact ih (h.receive hreceive) hconnected
  | hangUp hhang hserving ih =>
      obtain ⟨-, hover, -⟩ := (Agent.over_of_hangUp hhang).serving hserving
      cases hconnected.symm.trans hover.gone

end Within

end ScriptDebugger.Debug
