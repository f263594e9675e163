import ScriptDebugger.Proofs.Debug.Undisturbed
import ScriptDebugger.Proofs.Session.Asking
/-!
# Breakpoints of a session

What it comes to when a session that is ready sets or removes a breakpoint: the agent does to its
tables what was asked for, and the answer tells the number. An answer whose number is no word is
never read, so every number that the session learns is one.

## Main results

* `Breakpoints.mem_points_set`, `Breakpoints.mem_points_remove` — which breakpoints there are then.
* `Connection.ask_setBreakpoint`, `Connection.ask_removeBreakpoint` — what stands behind an
  outcome.
* `InOrder.setBreakpoint`, `InOrder.removeBreakpoint`, `InOrder.ask` — what asking keeps.
* `inOrder_of_start` — a session that was started is in order.
-/

namespace ScriptDebugger

open Wire (DebuggerMessage HostMessage)

/-! ## The tables -/

namespace Debug.Breakpoints

open Machine (State)

variable {b : Breakpoints} {s : State} {path : String} {line column : Nat} {k : Candidate}

/-- Where there is a place for it, the breakpoint is there under the number that is told, besides
those that there were. -/
theorem mem_points_set (h : Coherent b s) (hresolve : b.resolve s path line column = some k) :
    ∃ number : Nat, (b.set s path line column).2.2 = number ∧
      (∀ p, p ∈ (b.set s path line column).1.points ↔
        p ∈ b.points ∨ p = ⟨number, k.unit, k.offset⟩) ∧
      number ≤ b.lastId + 1 ∧ (b.set s path line column).1.lastId = max b.lastId number := by
  cases hid : b.idAt k.unit k.offset with
  | some number =>
      have hpoint := (h.inverse _ _ _).1 (mem_byPlace_of_idAt hid)
      have hrange := h.range number (List.mem_map.2 ⟨_, hpoint, rfl⟩)
      rw [set_of_known hresolve hid]
      refine ⟨number, rfl, fun p => ⟨Or.inl, ?_⟩, Nat.le_succ_of_le hrange.2, ?_⟩
      · rintro (hp | rfl)
        · exact hp
        · exact hpoint
      · exact (Nat.max_eq_left hrange.2).symm
  | none =>
      rw [set_of_new hresolve hid]
      refine ⟨b.lastId + 1, rfl, fun p => ?_, Nat.le_refl _, ?_⟩
      · exact List.mem_cons.trans or_comm
      · exact (Nat.max_eq_right (Nat.le_succ _)).symm

/-- The breakpoints that are left are those with other numbers. -/
theorem mem_points_remove (b : Breakpoints) (s : State) (id : Int) (p : Breakpoint) :
    p ∈ (b.remove s id).1.points ↔ p ∈ b.points ∧ (p.id : Int) ≠ id := by
  cases hfind : b.points.find? fun p => (p.id : Int) == id with
  | none =>
      have hother : ∀ q ∈ b.points, (q.id : Int) ≠ id := by simpa using hfind
      simp only [remove, hfind]
      exact ⟨fun hp => ⟨hp, hother p hp⟩, And.left⟩
  | some q =>
      have hq : (q.id : Int) = id := by simpa using List.find?_some hfind
      obtain rfl := hq
      simp only [remove, hfind, List.mem_filter, bne_iff_ne, ne_eq, Int.ofNat_inj]

theorem remove_lastId (b : Breakpoints) (s : State) (id : Int) :
    (b.remove s id).1.lastId = b.lastId := by
  unfold remove
  split
  · rfl
  · rfl

end Debug.Breakpoints

/-! ## What is known of the program -/

namespace Debug

open Machine (State)

variable {b b' b'' : Breakpoints} {s s' s'' : State}

/-- What is known of the program is the same before and behind. -/
structure Kept (b : Breakpoints) (s : State) (b' : Breakpoints) (s' : State) : Prop where
  files : b'.files = b.files
  program : s'.program = s.program
  started : s.started = true → s'.started = true

/-- Registering adds to the known units, according to the program alone, and to nothing else. -/
theorem registerAll_with (s : State) :
    ∃ add : List (String × List UnitId) → List (String × List UnitId),
      ∀ b : Breakpoints, b.registerAll s = { b with files := add b.files } := by
  simp only [Breakpoints.registerAll]
  induction Engine.topUnits s with
  | nil => exact ⟨id, fun _ => rfl⟩
  | cons unit units ih =>
      obtain ⟨add, hadd⟩ := ih
      cases hinfo : Engine.unitInfo? s unit with
      | none =>
          refine ⟨add, fun b => ?_⟩
          simp only [List.foldl_cons, Breakpoints.registerUnit, hinfo, hadd]
      | some info =>
          refine ⟨fun files => add (Breakpoints.insertFile info.url unit files), fun b => ?_⟩
          simp only [List.foldl_cons, Breakpoints.registerUnit, hinfo, hadd]

namespace Kept

theorem refl (b : Breakpoints) (s : State) : Kept b s b s := ⟨rfl, rfl, id⟩

theorem trans (h : Kept b s b' s') (h' : Kept b' s' b'' s'') : Kept b s b'' s'' :=
  ⟨h'.files.trans h.files, h'.program.trans h.program, h'.started ∘ h.started⟩

theorem registered (h : Kept b s b' s') (hregistered : Registered b s) : Registered b' s' := by
  refine ⟨h.started hregistered.started, ?_⟩
  obtain ⟨add, hadd⟩ := registerAll_with s
  have hsame : add b.files = b.files := by
    have hknown := hregistered.known
    rw [hadd] at hknown
    exact congrArg Breakpoints.files hknown
  rw [registerAll_congr h.program, hadd, h.files, hsame, ← h.files]

theorem resolve_eq (h : Kept b s b' s') (path : String) (line column : Nat) :
    b'.resolve s' path line column = b.resolve s path line column :=
  resolve_congr h.files h.program path line column

/-- Where all units are known, what leaves the breakpoints alone keeps what is known. -/
theorem of_undisturbed (h : Undisturbed b s b' s') (hregistered : Registered b s) :
    Kept b s b' s' :=
  ⟨h.files hregistered, h.program hregistered.started, h.started⟩

theorem set (b : Breakpoints) (s : State) (path : String) (line column : Nat) :
    Kept b s (b.set s path line column).1 (b.set s path line column).2.1 := by
  unfold Breakpoints.set
  split
  · exact .refl b s
  · split
    · exact .refl b s
    · refine ⟨rfl, setBreakpoint_program s _ _, fun hstarted => ?_⟩
      change (if s.hasBreakpoint _ _ then s else _ : State).started = true
      split
      · exact hstarted
      · exact hstarted

theorem remove (b : Breakpoints) (s : State) (id : Int) :
    Kept b s (b.remove s id).1 (b.remove s id).2.1 := by
  unfold Breakpoints.remove
  split
  · exact .refl b s
  · exact ⟨rfl, rfl, fun hstarted => hstarted⟩

end Kept

end Debug

/-! ## The numbers on the wire -/

namespace Wire

open Json (Holds)

/-- A breakpoint is told only under a number that is a word. -/
theorem heard?_breakpointSet {id : Int} (hid : Json.Number.FitsWord (.int id)) {l : Location}
    (hl : l.Fits) {reply : DebuggerMessage}
    (h : (DebuggerMessage.breakpointSet id l).heard? = some reply) :
    reply = .breakpointSet id l ∧ Json.IsInt64 id := by
  have hdecoded := decode?_of_heard? h
  by_cases hword : Json.IsInt64 id
  · have hread := DebuggerMessage.decode?_payload (m := .breakpointSet id l) ⟨hword, hl⟩
    exact ⟨Option.some.inj (hdecoded.symm.trans hread), hword⟩
  · -- The document is read as it is, but the number does not fit its field.
    have hfields : ∀ f ∈ (DebuggerMessage.breakpointSet id l).fields, Holds 1 f.2 := by
      simp only [DebuggerMessage.fields, List.forall_mem_cons]
      exact ⟨⟨Nat.zero_le _, hid⟩, holds_locationJson hl, List.forall_mem_nil _⟩
    have hholds : Holds 2 (DebuggerMessage.breakpointSet id l).toJson := holds_messageJson hfields
    have hnumber : Json.int64? (.ofInt id) = none := if_neg hword
    have hnone : DebuggerMessage.ofJson? (DebuggerMessage.breakpointSet id l).toJson = none := by
      rw [DebuggerMessage.ofJson?, DebuggerMessage.toJson,
        splitKind?_messageJson (DebuggerMessage.fields_ne_type _), Option.bind_some]
      simp (disch := simp) [DebuggerMessage.kind, DebuggerMessage.fields, DebuggerMessage.ofKind?,
        Json.fields?_object, hnumber]
    rw [DebuggerMessage.decode?, jsonOfBytes?_text (hholds.mono (by decide)), Option.bind_some,
      hnone] at hdecoded
    cases hdecoded

end Wire

/-! ## Asking -/

namespace Debug.Agent

variable {σ : Type} [Engine σ] (c : Context) (s : σ)

/-- A waiting agent that answers at once sends its answer, and waits again. -/
theorem receive_of_served {a : Agent σ} (h : a.Waits) {message : HostMessage} {context : Context}
    {engine : σ} {answer : DebuggerMessage}
    (hperform : perform a.context a.engine message = (context, engine, some answer, .serve))
    (fuel : Nat) : a.receive fuel message = some ({ a with context, engine }, [answer]) := by
  have hwaits : { a with context, engine }.Waits :=
    ⟨h.decoder, h.phase, h.connected, h.capacity⟩
  rw [receive, hperform]
  exact congrArg some (send_of_waits hwaits answer)

theorem perform_setBreakpoint (path : String) (line column : Nat) :
    perform c s (.setBreakpoint path line column) =
      ({ c with breakpoints := (c.breakpoints.set s path line column).1 },
        (c.breakpoints.set s path line column).2.1,
        some (.breakpointSet (c.breakpoints.set s path line column).2.2 ⟨line, column⟩), .serve) :=
  rfl

theorem perform_removeBreakpoint (id : Int) :
    perform c s (.removeBreakpoint id) =
      ({ c with breakpoints := (c.breakpoints.remove s id).1 }, (c.breakpoints.remove s id).2.1,
        some (.breakpointRemoved id (c.breakpoints.remove s id).2.2), .serve) :=
  rfl

end Debug.Agent

namespace Session.Connection

open Debug (Agent)

variable {α : Type} {fuel : Nat} {outcome : Except Failure α}

/-- Asking for what the agent answers at once: the agent has carried it out, and the outcome is what
its answer says. -/
theorem ask_of_served {σ : Type} [Engine σ] {c c' : Connection (Agent σ)} {q : Inquiry α}
    (h : c.IsReady) {message : HostMessage} (hmessage : q.message = message) (hfits : message.Fits)
    {context : Debug.Context} {engine : σ} {answer : DebuggerMessage}
    (hperform : Agent.perform c.peer.context c.peer.engine message =
      (context, engine, some answer, .serve))
    (hask : c.ask fuel q = some (c', outcome)) :
    c'.IsReady ∧ c'.peer = { c.peer with context, engine } ∧
      ∃ reply, answer.heard? = some reply ∧ outcome = q.interpret reply := by
  obtain ⟨heard, hheard, hanswered⟩ := ask_inv h hask
  rw [hmessage] at hheard
  obtain rfl : heard = message :=
    Option.some.inj ((Wire.decode?_of_heard? hheard).symm.trans (HostMessage.decode?_payload hfits))
  have hserved := Agent.receive_of_served h.peer hperform fuel
  cases hanswered with
  | @replied sent reply hreceive hreply hready =>
      obtain ⟨hpeer, hsent⟩ := Prod.mk.inj (Option.some.inj (hserved.symm.trans hreceive))
      obtain rfl := List.singleton_inj.1 hsent
      exact ⟨hready, hpeer.symm, reply, hreply, rfl⟩
  | ended hreceive _ =>
      have hsent := (Prod.mk.inj (Option.some.inj (hserved.symm.trans hreceive))).2
      cases hsent

variable {c c' : Connection (Agent Machine.State)}

/-- The number that setting a breakpoint tells is one that the wire can carry. -/
theorem fitsWord_set {b : Debug.Breakpoints} {s : Machine.State} (h : Debug.Coherent b s)
    (hlast : Json.IsInt64 b.lastId) (path : String) (line column : Nat) :
    Json.Number.FitsWord (.int (b.set s path line column).2.2) := by
  have hhigh := hlast.2
  show -((UInt64.size : Int) / 2) ≤ _ ∧ _ < (UInt64.size : Int)
  simp only [UInt64.size]
  cases hresolve : b.resolve s path line column with
  | none =>
      rw [Debug.Breakpoints.set_of_unresolved hresolve]
      exact (by decide : -(18446744073709551616 / 2 : Int) ≤ -1 ∧ (-1 : Int) < 18446744073709551616)
  | some k =>
      obtain ⟨number, hnumber, -, hle, -⟩ := Debug.Breakpoints.mem_points_set h hresolve
      rw [hnumber]
      omega

/-- A breakpoint that a session sets is set in the agent's tables, and the outcome is what a reply
with its number says. -/
theorem served_setBreakpoint (h : c.IsReady)
    (hcoherent : Debug.Coherent c.peer.context.breakpoints c.peer.engine)
    (hlast : Json.IsInt64 c.peer.context.breakpoints.lastId) {f : Frontier}
    (hf : f.mapper = .identity) {path : String} {line : Nat} {column : Option Nat}
    (hline : line < UInt32.size) (hcolumn : ∀ n ∈ column, n < UInt32.size)
    {outcome : Except Failure PlacedBreakpoint}
    (hask : c.ask fuel (setBreakpoint f path line column) = some (c', outcome)) :
    c'.IsReady ∧ ∃ id : Int, Json.IsInt64 id ∧
      outcome = (setBreakpoint f path line column).interpret
        (.breakpointSet id ⟨line, column.getD 1 - 1⟩) ∧
      (c'.peer.context.breakpoints, c'.peer.engine, id) =
        c.peer.context.breakpoints.set c.peer.engine (Path.normalize f.workspace path) line
          (column.getD 1 - 1) := by
  have hinner : f.toInternal ⟨path, line, column.getD 1⟩ =
      ⟨Path.normalize f.workspace path, line, column.getD 1 - 1⟩ := by
    rw [Frontier.toInternal, hf]
    rfl
  have hasked : column.getD 1 < UInt32.size := by
    cases column with
    | none => decide
    | some n => exact hcolumn n rfl
  have hlocation : Location.Fits ⟨line, column.getD 1 - 1⟩ :=
    ⟨hline, Nat.lt_of_le_of_lt (Nat.sub_le _ 1) hasked⟩
  have hmessage : (setBreakpoint f path line column).message =
      .setBreakpoint (Path.normalize f.workspace path) line (column.getD 1 - 1) := by
    rw [setBreakpoint, hinner]
  obtain ⟨hready, hpeer, reply, hreply, rfl⟩ :=
    ask_of_served h hmessage ⟨hlocation.line, hlocation.column⟩
      (Agent.perform_setBreakpoint _ _ _ _ _) hask
  obtain ⟨rfl, hword⟩ :=
    Wire.heard?_breakpointSet (fitsWord_set hcoherent hlast _ _ _) hlocation hreply
  refine ⟨hready, _, hword, rfl, ?_⟩
  rw [hpeer]

/-- A breakpoint that a session sets is set in the agent's tables, and the answer tells its
number. -/
theorem ask_setBreakpoint (h : c.IsReady)
    (hcoherent : Debug.Coherent c.peer.context.breakpoints c.peer.engine)
    (hlast : Json.IsInt64 c.peer.context.breakpoints.lastId) {f : Frontier}
    (hf : f.mapper = .identity) {path : String} {line : Nat} {column : Option Nat}
    (hline : line < UInt32.size) (hcolumn : ∀ n ∈ column, n < UInt32.size)
    {outcome : Except Failure PlacedBreakpoint}
    (hask : c.ask fuel (setBreakpoint f path line column) = some (c', outcome)) :
    c'.IsReady ∧ ∃ placed, outcome = .ok placed ∧ Json.IsInt64 placed.id ∧
      (c'.peer.context.breakpoints, c'.peer.engine, placed.id) =
        c.peer.context.breakpoints.set c.peer.engine (Path.normalize f.workspace path) line
          (column.getD 1 - 1) := by
  obtain ⟨hready, id, hword, rfl, hset⟩ :=
    served_setBreakpoint h hcoherent hlast hf hline hcolumn hask
  exact ⟨hready, _, rfl, hword, hset⟩

/-- A breakpoint that a session removes is removed from the agent's tables. -/
theorem ask_removeBreakpoint (h : c.IsReady) {id : Int} (hid : Json.IsInt64 id)
    {outcome : Except Failure Bool}
    (hask : c.ask fuel (removeBreakpoint id) = some (c', outcome)) :
    c'.IsReady ∧ (c'.peer.context.breakpoints, c'.peer.engine) =
      ((c.peer.context.breakpoints.remove c.peer.engine id).1,
        (c.peer.context.breakpoints.remove c.peer.engine id).2.1) := by
  obtain ⟨hready, hpeer, -⟩ :=
    ask_of_served h (q := removeBreakpoint id) rfl hid (Agent.perform_removeBreakpoint _ _ id) hask
  rw [hpeer]
  exact ⟨hready, rfl⟩

/-! ## Sessions in order -/

/-- A session that is ready, whose agent knows its program and has tables that agree with the
machine's breakpoints and numbers that are words. -/
structure InOrder (c : Connection (Agent Machine.State)) : Prop where
  ready : c.IsReady
  coherent : Debug.Coherent c.peer.context.breakpoints c.peer.engine
  registered : Debug.Registered c.peer.context.breakpoints c.peer.engine
  word : Json.IsInt64 c.peer.context.breakpoints.lastId

/-- What two states of a session know of the program is the same. -/
abbrev KeptIn (c c' : Connection (Agent Machine.State)) : Prop :=
  Debug.Kept c.peer.context.breakpoints c.peer.engine c'.peer.context.breakpoints c'.peer.engine

namespace InOrder

variable (h : InOrder c)

include h

/-- Setting a breakpoint leaves a session in order. Where there is a place for the breakpoint, it is
there behind the answer, under the number that the answer tells, besides those that there were. -/
theorem setBreakpoint {f : Frontier} (hf : f.mapper = .identity) {path : String} {line : Nat}
    {column : Option Nat} (hline : line < UInt32.size) (hcolumn : ∀ n ∈ column, n < UInt32.size)
    {outcome : Except Failure PlacedBreakpoint}
    (hask : c.ask fuel (Session.setBreakpoint f path line column) = some (c', outcome)) :
    InOrder c' ∧ KeptIn c c' ∧ ∃ placed, outcome = .ok placed ∧ Json.IsInt64 placed.id ∧
      match c.peer.context.breakpoints.resolve c.peer.engine (Path.normalize f.workspace path) line
        (column.getD 1 - 1) with
      | none => placed.isVerified = false ∧
        ∀ p, p ∈ c'.peer.context.breakpoints.points ↔ p ∈ c.peer.context.breakpoints.points
      | some k => placed.isVerified = true ∧ ∃ number : Nat, placed.id = number ∧
        ∀ p, p ∈ c'.peer.context.breakpoints.points ↔
          p ∈ c.peer.context.breakpoints.points ∨ p = ⟨number, k.unit, k.offset⟩ := by
  obtain ⟨hready, placed, rfl, hword, hset⟩ :=
    ask_setBreakpoint h.ready h.coherent h.word hf hline hcolumn hask
  have htables := congrArg (fun result => result.1) hset
  have hengine := congrArg (fun result => result.2.1) hset
  have hid := congrArg (fun result => result.2.2) hset
  dsimp only at htables hengine hid
  have hkept : KeptIn c c' := by
    rw [KeptIn, htables, hengine]
    exact .set _ _ _ _ _
  have hcoherent : Debug.Coherent c'.peer.context.breakpoints c'.peer.engine := by
    rw [htables, hengine]
    exact h.coherent.change (Debug.change_set _ _ _ _ _)
  cases hresolve : c.peer.context.breakpoints.resolve c.peer.engine
      (Path.normalize f.workspace path) line (column.getD 1 - 1) with
  | none =>
      rw [Debug.Breakpoints.set_of_unresolved hresolve] at htables hid
      have hlast : Json.IsInt64 c'.peer.context.breakpoints.lastId := by
        rw [htables]
        exact h.word
      refine ⟨⟨hready, hcoherent, hkept.registered h.registered, hlast⟩, hkept, placed, rfl, hword,
        ?_, fun p => by rw [htables]⟩
      rw [PlacedBreakpoint.isVerified, hid]
      rfl
  | some k =>
      obtain ⟨number, hnumber, hpoints, -, hmax⟩ :=
        Debug.Breakpoints.mem_points_set h.coherent hresolve
      rw [hnumber] at hid
      have hlast : Json.IsInt64 c'.peer.context.breakpoints.lastId := by
        rw [htables, hmax]
        rcases Nat.le_total number c.peer.context.breakpoints.lastId with hle | hle
        · rw [Nat.max_eq_left hle]
          exact h.word
        · rw [Nat.max_eq_right hle, ← hid]
          exact hword
      refine ⟨⟨hready, hcoherent, hkept.registered h.registered, hlast⟩, hkept, placed, rfl, hword,
        ?_, number, hid, fun p => ?_⟩
      · rw [PlacedBreakpoint.isVerified, hid, bne_iff_ne]
        exact fun heq => by cases heq
      · rw [htables]
        exact hpoints p

/-- Removing a breakpoint leaves a session in order, with the breakpoints of other numbers. -/
theorem removeBreakpoint {id : Int} (hid : Json.IsInt64 id) {outcome : Except Failure Bool}
    (hask : c.ask fuel (Session.removeBreakpoint id) = some (c', outcome)) :
    InOrder c' ∧ KeptIn c c' ∧ ∀ p, p ∈ c'.peer.context.breakpoints.points ↔
      p ∈ c.peer.context.breakpoints.points ∧ (p.id : Int) ≠ id := by
  obtain ⟨hready, hremove⟩ := ask_removeBreakpoint h.ready hid hask
  obtain ⟨htables, hengine⟩ := Prod.mk.inj hremove
  have hkept : KeptIn c c' := by
    rw [KeptIn, htables, hengine]
    exact .remove _ _ id
  refine ⟨⟨hready, ?_, hkept.registered h.registered, ?_⟩, hkept, fun p => ?_⟩
  · rw [htables, hengine]
    exact h.coherent.change (Debug.change_remove _ _ id)
  · rw [htables, Debug.Breakpoints.remove_lastId]
    exact h.word
  · rw [htables]
    exact Debug.Breakpoints.mem_points_remove _ _ id p

/-- Asking for anything else ends the program, or it leaves a session in order, with the breakpoints
that there were. -/
theorem ask {q : Inquiry α} (hmessage : ¬q.message.ChangesBreakpoints)
    (hask : c.ask fuel q = some (c', outcome)) :
    c'.mailbox.closed = true ∨ InOrder c' ∧ KeptIn c c' ∧
      c'.peer.context.breakpoints.points = c.peer.context.breakpoints.points := by
  obtain ⟨message, hheard, hanswered⟩ := ask_inv h.ready hask
  cases hanswered with
  | ended _ hclosed => exact .inl hclosed
  | replied hreceive _ hready =>
      have hquiet := HostMessage.not_changesBreakpoints_of_decode? (Wire.decode?_of_heard? hheard)
        hmessage
      have hsame := Agent.undisturbed_receive h.coherent hquiet hreceive
      have hleads := (Debug.Answers.receive h.coherent hreceive).leads
      have hword : Json.IsInt64 c'.peer.context.breakpoints.lastId := by
        rw [hsame.lastId]
        exact h.word
      exact .inr ⟨⟨hready, hleads.coherent h.coherent, hsame.registered h.registered, hword⟩,
        .of_undisturbed hsame h.registered, hsame.points⟩

end InOrder

/-- A session that was started is in order, and has no breakpoints. -/
theorem inOrder_of_start {library : String → Option String} {program : Machine.Program}
    {options : Options} {mapperFor : String → String → Mapper}
    {session : Session (Agent Machine.State)}
    (h : start fuel
      (accept (Agent.start (Machine.State.initial library program) none).1
        (bytesOf (Agent.start (Machine.State.initial library program) none).2))
      options mapperFor = some (.ok session)) :
    session.connection.InOrder ∧ session.connection.peer.context.breakpoints.points = [] ∧
      ∃ directory,
        session.frontier = ⟨options.workspace, mapperFor directory options.workspace⟩ := by
  obtain ⟨c, path, directory, hask, hconnection, hfrontier⟩ := of_start h
  have hcoherent := Debug.Coherent.initial library program
  obtain ⟨message, hheard, hanswered⟩ := ask_inv (isReady_start _) hask
  obtain rfl : message = .loadProgram (Path.normalize options.workspace options.program) :=
    Option.some.inj ((Wire.decode?_of_heard? hheard).symm.trans
      (HostMessage.decode?_payload trivial))
  generalize houtcome : Except.ok path = outcome at hanswered
  cases hanswered with
  | ended => cases houtcome
  | replied hreceive _ hready =>
      have hsame := Agent.undisturbed_receive hcoherent id hreceive
      have hleads := (Debug.Answers.receive hcoherent hreceive).leads
      rw [hconnection]
      refine ⟨⟨⟨hready.peer, hready.decoder, hready.mailbox⟩, hleads.coherent hcoherent,
        Agent.registered_receive hcoherent hreceive hready.peer.phase, ?_⟩, hsame.points,
        directory, hfrontier⟩
      show Json.IsInt64 c.peer.context.breakpoints.lastId
      rw [hsame.lastId]
      exact (by decide : -9223372036854775808 ≤ (0 : Int) ∧ (0 : Int) ≤ 9223372036854775807)

end Session.Connection

end ScriptDebugger
