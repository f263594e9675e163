import ScriptDebugger.Proofs.Debug.PausedStack
import ScriptDebugger.Proofs.Session.Locations
/-!
# The stack that a session shows

Asking for frames changes nothing at the agent. The session gets the part of the stack that it asks
for, each frame with its position as the user knows it, and fails where the stack has no such part.

## Main results

* `Connection.Arrived.ask`, `Connection.arrived_of_start` — the states of a session are reached by
  requests and runs.
* `Connection.ask_stack` — what asking for frames comes to.
-/

namespace ScriptDebugger.Session

open Debug (Agent Context QueryError)
open Debug.Context (CallerChain)
open Machine (Program State)
open Wire (DebuggerMessage HostMessage StackFrame)

/-- The frames of a chain as a session shows them. -/
def shownFrames (f : Frontier) (engine : State) (chain : List (FrameId × FrameInfo)) :
    List StackFrame :=
  (Context.showFrames engine 0 chain).map (externalFrame f)

theorem externalFrame_id (f : Frontier) (frame : StackFrame) :
    (externalFrame f frame).id = frame.id := by
  unfold externalFrame
  split
  · rfl
  · rfl

theorem length_shownFrames (f : Frontier) (engine : State) (chain : List (FrameId × FrameInfo)) :
    (shownFrames f engine chain).length = chain.length := by
  rw [shownFrames, List.length_map, Context.length_showFrames]

/-- Each frame is shown under its place in the chain. -/
theorem ids_shownFrames (f : Frontier) (engine : State) (chain : List (FrameId × FrameInfo)) :
    (shownFrames f engine chain).map (·.id) = List.range chain.length := by
  apply List.ext_getElem?
  intro k
  rw [shownFrames, List.map_map, List.getElem?_map, Context.getElem?_showFrames, Option.map_map]
  by_cases hk : k < chain.length
  · rw [List.getElem?_eq_getElem hk, List.getElem?_range hk]
    simp only [Option.map_some, Function.comp_apply, externalFrame_id, Context.showFrame,
      Nat.zero_add]
  · rw [List.getElem?_eq_none (Nat.le_of_not_lt hk), List.getElem?_eq_none (by simpa using hk)]
    rfl

namespace Connection

variable {α : Type} {fuel : Nat} {c c' : Connection (Agent State)} {q : Inquiry α}
  {outcome : Except Failure α}

/-! ## Where a session gets -/

/-- A session that is ready, whose debugger and machine got where they are by requests and runs. -/
structure Arrived (c : Connection (Agent State)) : Prop where
  ready : c.IsReady
  within : Debug.Within c.peer

/-- Behind a question the program has ended, or the session is ready for the next one. -/
theorem Arrived.ask (h : c.Arrived) (hask : c.ask fuel q = some (c', outcome)) :
    c'.mailbox.closed = true ∨ c'.Arrived := by
  obtain ⟨message, -, hanswered⟩ := ask_inv h.ready hask
  cases hanswered with
  | ended _ hclosed => exact .inl hclosed
  | replied hreceive _ hready => exact .inr ⟨hready, h.within.receive hreceive⟩

/-- A session starts where its program is loaded. -/
theorem arrived_of_start {library : String → Option String} {url source : String}
    {program : Program} (hsource : Program.ofSource url source = .ok program) {options : Options}
    {mapperFor : String → String → Mapper} {session : Session (Agent State)}
    (h : start fuel
      (accept (Agent.start (State.initial library program) none).1
        (bytesOf (Agent.start (State.initial library program) none).2))
      options mapperFor = some (.ok session)) : session.connection.Arrived := by
  obtain ⟨c, path, directory, hask, hconnection, -⟩ := of_start h
  have hfirst : Arrived { peer := (Agent.start (State.initial library program) none).1 } :=
    ⟨isReady_start _, .start hsource none⟩
  obtain ⟨message, -, hanswered⟩ := ask_inv hfirst.ready hask
  generalize houtcome : Except.ok path = outcome at hanswered
  cases hanswered with
  | ended => cases houtcome
  | replied hreceive _ hready =>
      rw [hconnection]
      exact ⟨⟨hready.peer, hready.decoder, hready.mailbox⟩, hfirst.within.receive hreceive⟩

/-! ## Asking for frames -/

/-- An error is heard as it is. -/
theorem heard?_error {message : String} {reply : DebuggerMessage}
    (h : (DebuggerMessage.error message).heard? = some reply) : reply = .error message :=
  Option.some.inj ((Wire.decode?_of_heard? h).symm.trans
    (DebuggerMessage.decode?_payload (m := .error message) trivial))

theorem perform_getStack (c : Context) (s : State) (index count : Nat) :
    Agent.perform c s (.getStack index count) =
      (c, s, some (Agent.answer ((c.stack s index count).map .stack)), .serve) :=
  rfl

/-- A session that asks for frames gets those that there are, and fails if there is none. -/
theorem ask_stack (h : c.IsReady) {paused : FrameId} {chain : List (FrameId × FrameInfo)}
    (hpaused : c.peer.context.stepper.paused = some paused)
    (hchain : CallerChain c.peer.engine paused chain) {f : Frontier} {index count : Nat}
    (hindex : index < UInt32.size) (hcount : count < UInt32.size)
    {outcome : Except Failure (List StackFrame)}
    (hask : c.ask fuel (stack f index count) = some (c', outcome)) :
    c'.IsReady ∧ c'.peer = c.peer ∧
      outcome =
        if index < chain.length then
          .ok (((shownFrames f c.peer.engine chain).drop index).take count)
        else .error (.remote (QueryError.frameNotFound index).message) := by
  obtain ⟨hready, hpeer, reply, hreply, rfl⟩ :=
    ask_of_served h (q := stack f index count) rfl ⟨hindex, hcount⟩ (perform_getStack _ _ _ _) hask
  refine ⟨hready, hpeer, ?_⟩
  rw [Context.stack_eq hpaused hchain] at hreply
  by_cases hfound : index < chain.length
  · rw [if_pos hfound] at hreply ⊢
    obtain ⟨rfl, -⟩ := DebuggerMessage.heard?_stack hreply
    rw [shownFrames, ← List.map_drop, ← List.map_take]
    rfl
  · rw [if_neg hfound] at hreply ⊢
    obtain rfl := heard?_error hreply
    rfl

end Connection

end ScriptDebugger.Session
