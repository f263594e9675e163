import ScriptDebugger.Proofs.Debug.Candidates
import ScriptDebugger.Proofs.Session.Breakpoints
import ScriptDebugger.Proofs.Session.Operations
import ScriptDebugger.Proofs.Session.Reports
/-!
# Offered and accepted places

The positions that a session offers on a line are those at which it accepts a breakpoint. The agent
looks for the one from the beginning of the line and for the other from the position on, in the
units of the path and in all units nested in them, and a unit has a place just where a statement
begins. Both requests name the path as the workspace knows it.

## Main results

* `Session.Connection.ask_locations` — what is offered.
* `Session.offered_iff_accepted` — both come to the same, in all states of a session.
-/

namespace ScriptDebugger

open Machine (State)

/-! ## What is offered and what is accepted -/

namespace Session

open Debug (Agent)
open Wire (HostMessage DebuggerMessage)

namespace Connection

variable {c c' : Connection (Agent State)} {fuel : Nat} {f : Frontier} {path : String}
  {line column : Nat}

/-- The positions that a session offers are the places of the line, as they are shown. -/
theorem ask_locations (h : c.IsReady) (hf : f.mapper = .identity) (hline : line < UInt32.size)
    {told : Except Failure (List Position)}
    (hask : c.ask fuel (locations f path line) = some (c', told)) :
    told = .ok ((c.peer.context.breakpoints.candidates c.peer.engine
        (Path.normalize f.workspace path) line 0).map fun k =>
          f.toExternal ⟨Path.normalize f.workspace path, k.location.line, k.location.column⟩) ∧
      ∀ k ∈ c.peer.context.breakpoints.candidates c.peer.engine
        (Path.normalize f.workspace path) line 0, k.location.Fits := by
  have hinner : f.toInternal ⟨path, line, 1⟩ = ⟨Path.normalize f.workspace path, line, 0⟩ := by
    rw [Frontier.toInternal, hf]
    rfl
  have hmessage : (locations f path line).message =
      .getBreakpointsForLine (Path.normalize f.workspace path) line 0 := by
    rw [locations, hinner]
  obtain ⟨-, -, reply, hreply, rfl⟩ := ask_of_served h hmessage ⟨hline, by decide⟩ rfl hask
  obtain ⟨rfl, hfits⟩ := DebuggerMessage.heard?_breakpointsForLine hreply
  refine ⟨?_, fun k hk => hfits _ (List.mem_map_of_mem hk)⟩
  show Except.ok (List.map _ (List.map _ _)) = _
  rw [List.map_map, hinner]
  rfl

/-- A breakpoint is verified where a statement begins, and is told at the position that was asked
for. -/
theorem accepted_of_ask (h : c.InOrder) (hf : f.mapper = .identity) (hline : line < UInt32.size)
    (hpositive : 1 ≤ column) (hcolumn : column < UInt32.size)
    {outcome : Except Failure PlacedBreakpoint}
    (hask : c.ask fuel (setBreakpoint f path line (some column)) = some (c', outcome)) :
    ∃ placed, outcome = .ok placed ∧
      placed.position = ⟨Path.qualify f.workspace (Path.normalize f.workspace path), line, column⟩ ∧
      placed.isVerified = (c.peer.context.breakpoints.resolve c.peer.engine
        (Path.normalize f.workspace path) line (column - 1)).isSome := by
  have hword : ∀ n ∈ some column, n < UInt32.size := fun n hn => Option.some.inj hn ▸ hcolumn
  obtain ⟨-, -, placed, rfl, -, hplaced⟩ := h.setBreakpoint hf hline hword hask
  obtain ⟨-, id, -, hanswer, -⟩ :=
    served_setBreakpoint h.ready h.coherent h.word hf hline hword hask
  have hshown : f.toExternal ⟨Path.normalize f.workspace path, line, column - 1⟩ =
      ⟨Path.qualify f.workspace (Path.normalize f.workspace path), line, column⟩ := by
    rw [Frontier.toExternal, hf, Frontier.successor, Nat.sub_add_cancel hpositive,
      Nat.mod_eq_of_lt hcolumn]
    rfl
  have hinner : (f.toInternal ⟨path, line, column⟩).path = Path.normalize f.workspace path := by
    rw [Frontier.toInternal, hf]
    rfl
  refine ⟨placed, rfl, ?_, ?_⟩
  · obtain rfl := Except.ok.inj hanswer
    show (if id = unresolvedId then _ else _ : Position) = _
    split
    · rfl
    · rw [← hshown, ← hinner]
      rfl
  · rw [Option.getD_some] at hplaced
    cases hresolve : c.peer.context.breakpoints.resolve c.peer.engine
        (Path.normalize f.workspace path) line (column - 1) with
    | none =>
        rw [hresolve] at hplaced
        exact hplaced.1
    | some k =>
        rw [hresolve] at hplaced
        exact hplaced.1

/-- Whether a request and the reply to it fit the wire. -/
structure Writable {α : Type} (fuel : Nat) (c : Connection (Agent State)) (q : Inquiry α) :
    Prop where
  message : q.message.encode.length < UInt64.size
  reply : ∀ agent sent, c.peer.receive fuel q.message = some (agent, [sent]) →
    sent.Fits ∧ sent.encode.length < UInt64.size

theorem Writable.of_receive {α : Type} {q : Inquiry α} {message : HostMessage}
    (hmessage : q.message = message) (hsize : message.encode.length < UInt64.size)
    {agent : Agent State} {sent : DebuggerMessage}
    (hreceive : c.peer.receive fuel message = some (agent, [sent])) (hfits : sent.Fits)
    (hlength : sent.encode.length < UInt64.size) : c.Writable fuel q where
  message := hmessage ▸ hsize
  reply b reply hreply := by
    rw [hmessage] at hreply
    obtain ⟨-, hsent⟩ := Prod.mk.inj (Option.some.inj (hreceive.symm.trans hreply))
    obtain rfl := List.singleton_inj.1 hsent
    exact ⟨hfits, hlength⟩

/-- A request that the agent answers at once has an outcome. -/
theorem exists_ask_of_served {α : Type} {q : Inquiry α} (h : c.IsReady) (hfits : q.message.Fits)
    {context : Debug.Context} {engine : State} {answer : DebuggerMessage}
    (hperform : Agent.perform c.peer.context c.peer.engine q.message =
      (context, engine, some answer, .serve))
    (hwritable : c.Writable fuel q) : ∃ result, c.ask fuel q = some result := by
  have hreceive := Agent.receive_of_served h.peer hperform fuel
  obtain ⟨hreply, hsize⟩ := hwritable.reply _ _ hreceive
  obtain ⟨c', hask, -⟩ := exists_ask h (HostMessage.heard?_of_fits hfits hwritable.message) hreceive
    (DebuggerMessage.heard?_of_fits hreply hsize)
  exact ⟨_, hask⟩

/-- What is offered is what is accepted, where both look at the same program. -/
theorem accepted_iff_offered {d d' : Connection (Agent State)} {fuel' : Nat} (h : c.IsReady)
    (hd : d.InOrder) (hkept : d.peer.context.breakpoints.resolve d.peer.engine
      (Path.normalize f.workspace path) line (column - 1) =
        c.peer.context.breakpoints.resolve c.peer.engine
          (Path.normalize f.workspace path) line (column - 1))
    (hf : f.mapper = .identity) (hline : line < UInt32.size)
    (hpositive : 1 ≤ column) (hcolumn : column < UInt32.size)
    {told : Except Failure (List Position)} {outcome : Except Failure PlacedBreakpoint}
    (hlocations : c.ask fuel (locations f path line) = some (c', told))
    (hset : d.ask fuel' (setBreakpoint f path line (some column)) = some (d', outcome)) :
    ∃ places placed, told = .ok places ∧ outcome = .ok placed ∧
      (placed.isVerified = true ↔ ∃ p ∈ places, p.line = line ∧ p.column = column) ∧
      placed.position =
        ⟨Path.qualify f.workspace (Path.normalize f.workspace path), line, column⟩ := by
  obtain ⟨rfl, hfits⟩ := ask_locations h hf hline hlocations
  obtain ⟨placed, rfl, hposition, hverified⟩ :=
    accepted_of_ask hd hf hline hpositive hcolumn hset
  refine ⟨_, placed, rfl, rfl, ?_, hposition⟩
  rw [hverified, hkept, Debug.Breakpoints.isSome_resolve_iff]
  simp only [List.mem_map, exists_exists_and_eq_and]
  refine exists_congr fun k => and_congr_right fun hk => ?_
  have hshown : f.toExternal
      ⟨Path.normalize f.workspace path, k.location.line, k.location.column⟩ =
      ⟨Path.qualify f.workspace (Path.normalize f.workspace path), k.location.line,
        Frontier.successor k.location.column⟩ := by
    rw [Frontier.toExternal, hf]
    rfl
  have hsmall := (hfits k hk).column
  -- The last column of all wraps around to zero, at which no breakpoint is asked for.
  have hsuccessor : Frontier.successor k.location.column = column ↔
      k.location.column = column - 1 := by
    unfold Frontier.successor
    simp only [UInt32.size] at hsmall hcolumn ⊢
    omega
  rw [hshown, hsuccessor, Location.mk.injEq]

/-! ## All states of a session -/

/-- The states that the owner of a session gets it to, one operation after the other. -/
inductive AskedOn (f : Frontier) (c : Connection (Agent State)) : Connection (Agent State) → Prop
  /-- Nothing is asked. -/
  | refl : AskedOn f c c
  /-- One operation more. -/
  | ask {d d' : Connection (Agent State)} (h : AskedOn f c d) (op : Operation)
    {q : Inquiry op.Answer} (hq : op.inquiry? f = .ok q) {fuel : Nat}
    {outcome : Except Failure op.Answer} (hask : d.ask fuel q = some (d', outcome)) :
    AskedOn f c d'

/-- An operation ends the program or leaves the session in order, and what is known of the program
stays the same. -/
theorem InOrder.operation (h : c.InOrder) (hf : f.mapper = .identity) {op : Operation}
    {q : Inquiry op.Answer} (hq : op.inquiry? f = .ok q) {outcome : Except Failure op.Answer}
    (hask : c.ask fuel q = some (c', outcome)) :
    c'.mailbox.closed = true ∨ c'.InOrder ∧ KeptIn c c' := by
  have hquiet : ¬q.message.ChangesBreakpoints →
      c'.mailbox.closed = true ∨ c'.InOrder ∧ KeptIn c c' := fun hmessage =>
    (h.ask hmessage hask).imp_right fun hsame => ⟨hsame.1, hsame.2.1⟩
  cases op with
  | setBreakpoint path line column =>
      obtain rfl := Except.ok.inj hq
      have hword : ∀ n ∈ column.map UInt32.toNat, n < UInt32.size := by
        rintro n hn
        obtain ⟨word, -, rfl⟩ := Option.map_eq_some_iff.1 hn
        exact word.toNat_lt_size
      obtain ⟨horder, hkept, -⟩ := h.setBreakpoint hf line.toNat_lt_size hword hask
      exact .inr ⟨horder, hkept⟩
  | removeBreakpoint id =>
      obtain rfl := Except.ok.inj hq
      have hword : Json.IsInt64 id.toInt := ⟨id.le_toInt, Int.le_of_lt_add_one id.toInt_lt⟩
      obtain ⟨horder, hkept, -⟩ := h.removeBreakpoint hword hask
      exact .inr ⟨horder, hkept⟩
  | setVariable reference name literal =>
      obtain ⟨value, -, rfl⟩ := of_assignText_ok hq
      exact hquiet id
  | resume command =>
      obtain rfl := Except.ok.inj hq
      refine hquiet ?_
      cases command <;> exact id
  | stack | scopes | variablesBehind | locations =>
      obtain rfl := Except.ok.inj hq
      exact hquiet id

/-- A session that is open has stayed in order, and knows its program as in the beginning. -/
theorem InOrder.askedOn {d : Connection (Agent State)} (h : c.InOrder) (hf : f.mapper = .identity)
    (hasked : AskedOn f c d) : d.mailbox.closed = true ∨ d.InOrder ∧ KeptIn c d := by
  induction hasked with
  | refl => exact .inr ⟨h, .refl _ _⟩
  | ask _ op hq hask ih =>
      rcases ih with hclosed | ⟨horder, hkept⟩
      · rw [ask_of_closed hclosed] at hask
        obtain ⟨rfl, -⟩ := Prod.mk.inj (Option.some.inj hask)
        exact .inl hclosed
      · exact (horder.operation hf hq hask).imp_right fun hafter =>
          ⟨hafter.1, hkept.trans hafter.2⟩

end Connection

/-- The positions that a session offers on a line are those at which it accepts a breakpoint: in
all states that the owner of a session gets it to while the program is there, for every program,
path, line and column. A breakpoint that is accepted is told at the position that was asked for.
Both requests have an outcome where what is written fits the wire. -/
theorem offered_iff_accepted {library : String → Option String} {program : Machine.Program}
    {fuel : Nat} {options : Options} {session : Session (Agent State)}
    (hstart : start fuel
      (Connection.accept (Agent.start (State.initial library program) none).1
        (bytesOf (Agent.start (State.initial library program) none).2))
      options (fun _ _ => .identity) = some (.ok session))
    {c d : Connection (Agent State)}
    (hc : Connection.AskedOn session.frontier session.connection c)
    (hd : Connection.AskedOn session.frontier session.connection d)
    (hopen : c.mailbox.closed = false) (hopen' : d.mailbox.closed = false)
    (path : String) (line column : UInt32) (hcolumn : 1 ≤ column) (fuel' fuel'' : Nat) :
    (c.Writable fuel' (locations session.frontier path line.toNat) →
      ∃ result, c.ask fuel' (locations session.frontier path line.toNat) = some result) ∧
    (d.Writable fuel'' (setBreakpoint session.frontier path line.toNat (some column.toNat)) →
      ∃ result, d.ask fuel'' (setBreakpoint session.frontier path line.toNat
        (some column.toNat)) = some result) ∧
    ∀ {c' d' told outcome},
      c.ask fuel' (locations session.frontier path line.toNat) = some (c', told) →
      d.ask fuel'' (setBreakpoint session.frontier path line.toNat (some column.toNat)) =
        some (d', outcome) →
      ∃ places placed, told = .ok places ∧ outcome = .ok placed ∧
        (placed.isVerified = true ↔
          ∃ p ∈ places, p.line = line.toNat ∧ p.column = column.toNat) ∧
        placed.position = ⟨Path.qualify options.workspace (Path.normalize options.workspace path),
          line.toNat, column.toNat⟩ := by
  obtain ⟨horder, -, directory, hfrontier⟩ := Connection.inOrder_of_start hstart
  have hf : session.frontier.mapper = .identity := by rw [hfrontier]
  have hworkspace : session.frontier.workspace = options.workspace := by rw [hfrontier]
  have hreached : ∀ {e}, Connection.AskedOn session.frontier session.connection e →
      e.mailbox.closed = false → e.InOrder ∧ Connection.KeptIn session.connection e :=
    fun hasked hopen => (horder.askedOn hf hasked).resolve_left (by rw [hopen]; decide)
  obtain ⟨hcOrder, hcKept⟩ := hreached hc hopen
  obtain ⟨hdOrder, hdKept⟩ := hreached hd hopen'
  refine ⟨fun hwritable => ?_, fun hwritable => ?_, fun hlocations hset => ?_⟩
  · exact Connection.exists_ask_of_served hcOrder.ready
      (toInternal_lt hf path line.toNat_lt_size (by decide)) rfl hwritable
  · exact Connection.exists_ask_of_served hdOrder.ready
      (toInternal_lt hf path line.toNat_lt_size column.toNat_lt_size) rfl hwritable
  · rw [← hworkspace]
    exact Connection.accepted_iff_offered hcOrder.ready hdOrder
      ((hdKept.resolve_eq _ _ _).trans (hcKept.resolve_eq _ _ _).symm) hf line.toNat_lt_size
      (UInt32.le_iff_toNat_le.1 hcolumn) column.toNat_lt_size hlocations hset

/-- A line with a function in it: a place in the function is offered, and accepted. -/
theorem offered_iff_accepted_nested :
    ∃ (program : Machine.Program) (session : Session (Agent State))
      (c d : Connection (Agent State)) (placed : PlacedBreakpoint),
      Machine.Program.ofSource "main.mod" "function f; print 1; end; print 2\n" = .ok program ∧
      start 10
        (Connection.accept (Agent.start (State.initial (fun _ => none) program) none).1
          (bytesOf (Agent.start (State.initial (fun _ => none) program) none).2))
        ⟨"/work/main.mod", "/work", false⟩ (fun _ _ => .identity) = some (.ok session) ∧
      session.connection.mailbox.closed = false ∧
      session.connection.Writable 10 (locations session.frontier "/work/main.mod" 1) ∧
      session.connection.Writable 10
        (setBreakpoint session.frontier "/work/main.mod" 1 (some 13)) ∧
      session.connection.ask 10 (locations session.frontier "/work/main.mod" 1) =
        some (c, .ok [⟨"/work/main.mod", 1, 27⟩, ⟨"/work/main.mod", 1, 13⟩,
          ⟨"/work/main.mod", 1, 22⟩]) ∧
      session.connection.ask 10 (setBreakpoint session.frontier "/work/main.mod" 1 (some 13)) =
        some (d, .ok placed) ∧
      placed.isVerified = true ∧ placed.position = ⟨"/work/main.mod", 1, 13⟩ := by
  have hpath : Path.normalize "/work" "/work/main.mod" = "main.mod" := by decide +kernel
  have hcomputed :
      ((Machine.Program.ofSource "main.mod" "function f; print 1; end; print 2\n").toOption.bind
        fun program =>
          ((Agent.start (State.initial (fun _ => none) program) none).1.receive 10
              (.loadProgram "main.mod")).bind fun a =>
            (a.1.receive 10 (.getBreakpointsForLine "main.mod" 1 0)).bind fun b =>
              (a.1.receive 10 (.setBreakpoint "main.mod" 1 12)).map fun d => [a.2, b.2, d.2]) =
      some [[.programLoaded "main.mod"], [.breakpointsForLine [⟨1, 26⟩, ⟨1, 12⟩, ⟨1, 21⟩]],
        [.breakpointSet 1 ⟨1, 12⟩]] := by cbv
  obtain ⟨program, hsource, hprogram⟩ := Machine.Program.exists_of_ofSource hcomputed
  obtain ⟨⟨a, loaded⟩, hload, hbehind⟩ := Option.bind_eq_some_iff.1 hprogram
  obtain ⟨⟨b, offered⟩, hoffer, hbehind⟩ := Option.bind_eq_some_iff.1 hbehind
  obtain ⟨⟨e, accepted⟩, haccept, hvalues⟩ := Option.map_eq_some_iff.1 hbehind
  simp only [List.cons.injEq, and_true] at hvalues
  obtain ⟨rfl, rfl, rfl⟩ := hvalues
  have hstarts := Agent.waits_start (State.initial (fun _ => none) program)
  have hwaits := Agent.waits_of_reply hstarts hload
  rw [← hpath] at hload
  obtain ⟨session, hstart, hready, rfl⟩ := Connection.exists_start
    ⟨"/work/main.mod", "/work", false⟩ (fun _ _ => .identity)
    (.of_receive hstarts (by decide +kernel) hload trivial (by decide +kernel)) hload hwaits
  obtain ⟨-, -, directory, hfrontier⟩ := Connection.inOrder_of_start hstart
  have hopen : session.connection.mailbox.closed = false := by rw [hready.mailbox]
  have hlocations : (locations session.frontier "/work/main.mod" 1).message =
      .getBreakpointsForLine "main.mod" 1 0 := by
    rw [hfrontier]
    exact congrArg (HostMessage.getBreakpointsForLine · 1 0) hpath
  have hset : (setBreakpoint session.frontier "/work/main.mod" 1 (some 13)).message =
      .setBreakpoint "main.mod" 1 12 := by
    rw [hfrontier]
    exact congrArg (HostMessage.setBreakpoint · 1 12) hpath
  have hofferFits : (DebuggerMessage.breakpointsForLine [⟨1, 26⟩, ⟨1, 12⟩, ⟨1, 21⟩]).Fits := by
    simp only [DebuggerMessage.Fits, List.forall_mem_cons]
    exact ⟨⟨by decide, by decide⟩, ⟨by decide, by decide⟩, ⟨by decide, by decide⟩,
      List.forall_mem_nil _⟩
  have hacceptFits : (DebuggerMessage.breakpointSet 1 ⟨1, 12⟩).Fits :=
    ⟨⟨by decide, by decide⟩, ⟨by decide, by decide⟩⟩
  obtain ⟨c, hoffered, -⟩ := Connection.exists_ask hready
    (by rw [hlocations]; exact HostMessage.heard?_of_fits ⟨by decide, by decide⟩ (by decide +kernel))
    hoffer (DebuggerMessage.heard?_of_fits hofferFits (by decide +kernel))
  obtain ⟨d, haccepted, -⟩ := Connection.exists_ask hready
    (by rw [hset]; exact HostMessage.heard?_of_fits ⟨by decide, by decide⟩ (by decide +kernel))
    haccept (DebuggerMessage.heard?_of_fits hacceptFits (by decide +kernel))
  have hplaces : (locations session.frontier "/work/main.mod" 1).interpret
      (.breakpointsForLine [⟨1, 26⟩, ⟨1, 12⟩, ⟨1, 21⟩]) =
      .ok [⟨"/work/main.mod", 1, 27⟩, ⟨"/work/main.mod", 1, 13⟩, ⟨"/work/main.mod", 1, 22⟩] := by
    rw [hfrontier]
    refine congrArg Except.ok (?_ : List.map _ _ = _)
    decide +kernel
  rw [hplaces] at hoffered
  have hofferWrites : session.connection.Writable 10 (locations session.frontier _ 1) :=
    .of_receive hlocations (by decide +kernel) hoffer hofferFits (by decide +kernel)
  have hacceptWrites : session.connection.Writable 10 (setBreakpoint session.frontier _ 1 _) :=
    .of_receive hset (by decide +kernel) haccept hacceptFits (by decide +kernel)
  obtain ⟨-, -, hagree⟩ :=
    offered_iff_accepted hstart .refl .refl hopen hopen "/work/main.mod" 1 13 (by decide) 10 10
  obtain ⟨places, placed, hsame, hplaced, hverified, hposition⟩ := hagree hoffered haccepted
  obtain rfl := Except.ok.inj hsame
  have hshown : Path.qualify "/work" (Path.normalize "/work" "/work/main.mod") =
      "/work/main.mod" := by decide +kernel
  rw [hplaced] at haccepted
  rw [hshown] at hposition
  refine ⟨program, session, c, d, placed, hsource, hstart, hopen, hofferWrites, hacceptWrites,
    hoffered, haccepted, hverified.2 ⟨⟨"/work/main.mod", 1, 13⟩, ?_, rfl, rfl⟩, hposition⟩
  exact List.mem_cons_of_mem _ List.mem_cons_self

end Session

end ScriptDebugger
