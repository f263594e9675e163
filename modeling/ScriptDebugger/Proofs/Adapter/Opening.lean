import ScriptDebugger.Console
import ScriptDebugger.Proofs.Adapter.Requests
import ScriptDebugger.Proofs.Session.Breakpoints
/-!
# How sessions begin

A launch succeeds whose target announces its program, and a session that is ready sets a breakpoint
and removes one. What a server does at the beginning of a session is, then, what the agent makes of
the messages, and no bytes have to be looked at.

## Main results

* `exists_launched` — a launch that succeeds.
* `exists_setAll`, `exists_removeAll` — a breakpoint that is set, and one that is removed.
* `exists_begun` — the beginning of a session with either of two programs.
-/

namespace ScriptDebugger

open Debug (Agent)
open Machine (Program State)
open Session (PlacedBreakpoint)
open Wire (DebuggerMessage HostMessage)

namespace Adapter

/-! ## Launching -/

/-- A target is started on the program of its command line. -/
theorem Host.launch_of_load {h : Host} {plan : LaunchPlan} {program : String} {verbose : Bool}
    {machine : State} (hrefusal : h.refusal? plan = none)
    (hparse : CommandLine.parse none (plan.args ++ [plan.program]) =
      .ok (.run program none verbose))
    (hload : State.load (h.text? plan.workspace) program = .ok machine)
    (hport : Host.tellsPort plan = true) (fuel : Nat) :
    h.launch fuel plan =
      some (.attached (Agent.start machine none).1
        (Session.bytesOf (Agent.start machine none).2)) := by
  simp only [Host.launch, hrefusal, hparse, hload, hport]
  rfl

/-- A target that attaches is an agent that was started with a compiled program. -/
theorem of_launch_attached {host : Host} {plan : LaunchPlan} {fuel : Nat} {peer : Agent State}
    {opening : List UInt8} (h : host.launch fuel plan = some (.attached peer opening)) :
    ∃ library url source program, Program.ofSource url source = .ok program ∧
      peer = (Agent.start (State.initial library program) none).1 ∧
      opening = Session.bytesOf (Agent.start (State.initial library program) none).2 := by
  unfold Host.launch at h
  split at h
  · cases h
  · split at h
    · cases h
    · cases h
    · split at h
      · cases h
      · rename_i machine hload
        split at h
        · obtain ⟨rfl, rfl⟩ := Launch.attached.inj (Option.some.inj h)
          obtain ⟨program, hprogram, rfl⟩ := Server.of_map_ok hload
          obtain ⟨source, hsource⟩ := Program.exists_source_of_load hprogram
          exact ⟨_, _, source, program, hsource, rfl, rfl⟩
        · obtain ⟨last, -, hexited⟩ := Option.map_eq_some_iff.1 h
          cases hexited

namespace Server

variable {fuel : Nat} {s closed : Server (Agent State)} {r : Request} {l : Live (Agent State)}
  {a b : Agent State}

/-- A launch succeeds whose target announces its program. -/
theorem exists_launched {host : Host} {plan : LaunchPlan} {library : String → Option String}
    {program : Program} {path : String} {ended : List Content} (hcommand : r.command = "launch")
    (hplan : s.planOf? r = some plan)
    (htarget : host.launch fuel plan =
      some (.attached (Agent.start (State.initial library program) none).1
        (Session.bytesOf (Agent.start (State.initial library program) none).2)))
    (hfits : Session.Connection.LoadFits fuel (Agent.start (State.initial library program) none).1
      (Path.normalize plan.workspace plan.program))
    (hreceive : (Agent.start (State.initial library program) none).1.receive fuel
      (.loadProgram (Path.normalize plan.workspace plan.program)) =
        some (a, [.programLoaded path]))
    (hclose : s.closeSession fuel = some (closed, ended)) :
    ∃ l sent, s.handle fuel (Console.setting host) r =
        some ({ s with live := some l, plan := some plan }, sent, .more) ∧
      sent.any Content.isSuccess = true ∧ l.session.connection.IsReady ∧
      l.session.connection.peer = a ∧ l.session.frontier = ⟨plan.workspace, .identity⟩ := by
  obtain ⟨session, hstart, hready, hpeer⟩ :=
    Session.Connection.exists_start ⟨plan.program, plan.workspace, plan.trace⟩
      (Console.setting host).mapperFor hfits hreceive
      (Agent.waits_of_reply (Agent.waits_start _) hreceive)
  obtain ⟨-, -, directory, hfrontier⟩ := Session.Connection.inOrder_of_start hstart
  obtain ⟨shown, noticed, sent, hhandle, hsuccess⟩ :=
    handle_of_start hcommand hplan htarget hstart hclose
  exact ⟨_, sent, hhandle, hsuccess, hready, hpeer, hfrontier⟩

/-! ## Single breakpoints -/

/-- A session that is ready sets a breakpoint, under the number that the agent tells. -/
theorem exists_setAll (hready : l.session.connection.IsReady)
    (hmapper : l.session.frontier.mapper = .identity) {path inner : String} {line : Nat} {id : Int}
    (hinner : Path.normalize l.session.frontier.workspace path = inner)
    (hmessage : (HostMessage.setBreakpoint inner line 0).heard? =
      some (.setBreakpoint inner line 0))
    (hreceive : l.session.connection.peer.receive fuel (.setBreakpoint inner line 0) =
      some (b, [.breakpointSet id ⟨line, 0⟩]))
    (hreply : (DebuggerMessage.breakpointSet id ⟨line, 0⟩).heard? =
      some (.breakpointSet id ⟨line, 0⟩)) :
    ∃ l' placed, (∀ s : Server (Agent State), s.setAll fuel l path [(line, none)] =
        some ({ s with live := some l' }, .ok [placed])) ∧ placed.id = id ∧
      l'.session.connection.IsReady ∧ l'.session.connection.peer = b ∧
      l'.session.frontier = l.session.frontier := by
  have hasked : (Session.setBreakpoint l.session.frontier path line none).message =
      .setBreakpoint inner line 0 := by
    rw [Session.setBreakpoint, Session.Frontier.toInternal, hmapper, ← hinner]
    rfl
  obtain ⟨placed, hplaced, hid⟩ : ∃ placed : PlacedBreakpoint,
      (Session.setBreakpoint l.session.frontier path line none).interpret
        (.breakpointSet id ⟨line, 0⟩) = .ok placed ∧ placed.id = id := ⟨_, rfl, rfl⟩
  obtain ⟨c, hask, hpeer, hready'⟩ :=
    Session.Connection.exists_ask hready (by rw [hasked]; exact hmessage) hreceive hreply
  rw [hplaced] at hask
  refine ⟨{ l with session := { l.session with connection := c } }, placed, fun s => ?_, hid,
    hready', hpeer, rfl⟩
  simp only [setAll, ask, Session.ask, hask]
  rfl

/-- A session that is ready removes a breakpoint. -/
theorem exists_removeAll (hready : l.session.connection.IsReady) {id : Int} {removed : Bool}
    (hmessage : (HostMessage.removeBreakpoint id).heard? = some (.removeBreakpoint id))
    (hreceive : l.session.connection.peer.receive fuel (.removeBreakpoint id) =
      some (b, [.breakpointRemoved id removed]))
    (hreply : (DebuggerMessage.breakpointRemoved id removed).heard? =
      some (.breakpointRemoved id removed)) :
    ∃ l', (∀ s : Server (Agent State), s.removeAll fuel l [id] =
        some ({ s with live := some l' }, l')) ∧
      l'.session.connection.IsReady ∧ l'.session.connection.peer = b ∧
      l'.session.frontier = l.session.frontier := by
  obtain ⟨c, hask, hpeer, hready'⟩ :=
    Session.Connection.exists_ask (q := Session.removeBreakpoint id) hready hmessage hreceive hreply
  refine ⟨{ l with session := { l.session with connection := c } }, fun s => ?_, hready', hpeer, rfl⟩
  simp only [removeAll, ask, Session.ask, hask]
  rfl

/-! ## Two programs -/

/-- A host with two programs of one statement. -/
def twoPrograms : Host where
  text? _ path := if path = "a.mod" ∨ path = "b.mod" then some "print 1\n" else none
  refusal? _ := none

/-- The plan of a launch that names a program alone. -/
def planFor (name : String) : LaunchPlan := ⟨name, "/ws", true, false, none, ["run"], "DEBUGGER_PORT"⟩

/-- A server that was just started in the directory of the programs. -/
def atStart : Server (Agent State) := { config := {}, fallback := "/ws" }

/-- What the agent makes of a program, of a breakpoint on its statement, and of the removal of the
breakpoint. -/
structure Rehearsed (name : String) (program : Program) (a b c : Agent State) : Prop where
  load : Program.load (twoPrograms.text? "/ws") name = .ok program
  loaded : (Agent.start (State.initial (twoPrograms.text? "/ws") program) none).1.receive 20
    (.loadProgram name) = some (a, [.programLoaded name])
  set : a.receive 20 (.setBreakpoint name 1 0) = some (b, [.breakpointSet 1 ⟨1, 0⟩])
  removed : b.receive 20 (.removeBreakpoint 1) = some (c, [.breakpointRemoved 1 true])
  url : b.engine.program.url = name
  urlAfter : c.engine.program.url = name
  breakpoints : b.engine.breakpoints = [(⟨0⟩, 0)]
  hangs : (b.hangUp 20).isSome = true

theorem exists_rehearsed {name : String} (h : name = "a.mod" ∨ name = "b.mod") :
    ∃ program a b c, Rehearsed name program a b c := by
  have hcomputed :
      ((Program.load (twoPrograms.text? "/ws") name).toOption.bind fun program =>
        ((Agent.start (State.initial (twoPrograms.text? "/ws") program) none).1.receive 20
            (.loadProgram name)).bind fun a =>
          (a.1.receive 20 (.setBreakpoint name 1 0)).bind fun b =>
            (b.1.receive 20 (.removeBreakpoint 1)).map fun c =>
              ([a.2, b.2, c.2], [b.1.engine.program.url, c.1.engine.program.url],
                b.1.engine.breakpoints)) =
      some ([[.programLoaded name], [.breakpointSet 1 ⟨1, 0⟩], [.breakpointRemoved 1 true]],
        [name, name], [(⟨0⟩, 0)]) := by
    rcases h with rfl | rfl
    · cbv
    · cbv
  have hhangs : ((Program.load (twoPrograms.text? "/ws") name).toOption.bind fun program =>
      ((Agent.start (State.initial (twoPrograms.text? "/ws") program) none).1.receive 20
          (.loadProgram name)).bind fun a =>
        (a.1.receive 20 (.setBreakpoint name 1 0)).bind fun b => b.1.hangUp 20).isSome = true := by
    rcases h with rfl | rfl
    · decide +kernel
    · decide +kernel
  obtain ⟨program, hprogram, hcomputed⟩ := Option.bind_eq_some_iff.1 hcomputed
  obtain ⟨⟨a, loaded⟩, hloaded, hcomputed⟩ := Option.bind_eq_some_iff.1 hcomputed
  obtain ⟨⟨b, set⟩, hset, hcomputed⟩ := Option.bind_eq_some_iff.1 hcomputed
  obtain ⟨⟨c, removed⟩, hremoved, hcomputed⟩ := Option.map_eq_some_iff.1 hcomputed
  simp only [Prod.mk.injEq, List.cons.injEq, and_true] at hcomputed
  obtain ⟨⟨rfl, rfl, rfl⟩, ⟨hurl, hurlAfter⟩, hbreakpoints⟩ := hcomputed
  simp only [hprogram, hloaded, hset, Option.bind_some] at hhangs
  have hload : Program.load (twoPrograms.text? "/ws") name = .ok program := by
    cases hresult : Program.load (twoPrograms.text? "/ws") name with
    | error e => rw [hresult] at hprogram; cases hprogram
    | ok p => rw [hresult] at hprogram; rw [Option.some.inj hprogram]
  exact ⟨program, a, b, c, hload, hloaded, hset, hremoved, hurl, hurlAfter, hbreakpoints, hhangs⟩

/-- What is so of a session with a program that has not ended. -/
structure Opened (name : String) (l : Live (Agent State)) : Prop where
  isOpen : l.session.isClosed = false
  frontier : l.session.frontier = ⟨"/ws", .identity⟩
  url : l.session.connection.peer.engine.program.url = name

/-- What is so of a session where a breakpoint was set on the statement of its program. -/
structure Begun (name : String) (l : Live (Agent State)) : Prop extends Opened name l where
  breakpoints : l.session.connection.peer.engine.breakpoints = [(⟨0⟩, 0)]
  /-- The session can be closed. -/
  closes : ∀ s : Server (Agent State), s.live = some l →
    ∃ closed ended, s.closeSession 20 = some (closed, ended)
  /-- The breakpoint can be removed. -/
  removes : ∃ l', Opened name l' ∧ ∀ s : Server (Agent State),
    s.removeAll 20 l [1] = some ({ s with live := some l' }, l')

theorem begun_of_rehearsed {name : String} {program : Program} {a b c : Agent State}
    (h : Rehearsed name program a b c) (hready : l.session.connection.IsReady)
    (hfrontier : l.session.frontier = ⟨"/ws", .identity⟩)
    (hpeer : l.session.connection.peer = b) : Begun name l where
  isOpen := by rw [Session.isClosed, hready.mailbox]
  frontier := hfrontier
  url := by rw [hpeer, h.url]
  breakpoints := by rw [hpeer, h.breakpoints]
  closes s hlive := by
    obtain ⟨gone, hgone⟩ := Option.isSome_iff_exists.1 h.hangs
    have hhangs : Session.Peer.hangUp 20 l.session.connection.peer = some gone := by
      rw [hpeer]
      exact hgone
    simp only [closeSession, hlive, Live.close, Session.close, Session.Connection.close, hhangs,
      Option.map_some]
    exact ⟨_, _, rfl⟩
  removes := by
    obtain ⟨l', hremoves, hready', hpeer', hfrontier'⟩ := exists_removeAll hready
      (HostMessage.heard?_of_fits ⟨by decide, by decide⟩ (by decide +kernel))
      (hpeer ▸ h.removed)
      (DebuggerMessage.heard?_of_fits ⟨by decide, by decide⟩ (by decide +kernel))
    refine ⟨l', ⟨?_, hfrontier'.trans hfrontier, ?_⟩, hremoves⟩
    · rw [Session.isClosed, hready'.mailbox]
    · rw [hpeer', h.urlAfter]

/-- A client launches either program on a server whose session can be closed, and sets a breakpoint
on its statement. It is told the number one. -/
theorem exists_begun {name path : String}
    (h : (name = "a.mod" ∧ path = "/ws/a.mod") ∨ (name = "b.mod" ∧ path = "/ws/b.mod"))
    (hconfig : s.config = {}) (hfallback : s.fallback = "/ws") {ended : List Content}
    (hclose : s.closeSession 20 = some (closed, ended)) (seq : Nat) :
    ∃ launched l l' placed,
      s.handle 20 (Console.setting twoPrograms) (.launching seq name) =
        some ({ s with live := some l, plan := some (planFor name) }, launched, .more) ∧
      launched.any Content.isSuccess = true ∧
      (∀ t : Server (Agent State), t.setAll 20 l path [(1, none)] =
        some ({ t with live := some l' }, .ok [placed])) ∧
      placed.id = 1 ∧ Begun name l' := by
  obtain ⟨program, a, b, c, hplayed⟩ := exists_rehearsed (h.imp And.left And.left)
  have hplan : s.planOf? (.launching seq name) = some (planFor name) := by
    rw [planOf?, hconfig, hfallback]
    rfl
  have hparse : CommandLine.parse none ((planFor name).args ++ [(planFor name).program]) =
      .ok (.run name none false) := by
    rcases h with ⟨rfl, -⟩ | ⟨rfl, -⟩
    · rfl
    · rfl
  have hload : State.load (twoPrograms.text? "/ws") name =
      .ok (State.initial (twoPrograms.text? "/ws") program) := by
    rw [State.load, hplayed.load]
    rfl
  have hnormal : Path.normalize "/ws" name = name ∧ Path.normalize "/ws" path = name := by
    rcases h with ⟨rfl, rfl⟩ | ⟨rfl, rfl⟩
    · decide +kernel
    · decide +kernel
  have hlengths : (HostMessage.loadProgram name).encode.length < UInt64.size ∧
      (DebuggerMessage.programLoaded name).encode.length < UInt64.size ∧
      (HostMessage.setBreakpoint name 1 0).encode.length < UInt64.size := by
    rcases h with ⟨rfl, -⟩ | ⟨rfl, -⟩
    · decide +kernel
    · decide +kernel
  obtain ⟨hnormal, hinner⟩ := hnormal
  obtain ⟨hasking, hloaded, hsetting⟩ := hlengths
  have hreceive : (Agent.start (State.initial (twoPrograms.text? "/ws") program) none).1.receive 20
      (.loadProgram (Path.normalize (planFor name).workspace (planFor name).program)) =
        some (a, [.programLoaded name]) := by
    rw [planFor, hnormal]
    exact hplayed.loaded
  have hfits : Session.Connection.LoadFits 20
      (Agent.start (State.initial (twoPrograms.text? "/ws") program) none).1
      (Path.normalize (planFor name).workspace (planFor name).program) :=
    .of_receive (Agent.waits_start _) (by rw [planFor, hnormal]; exact hasking) hreceive trivial
      hloaded
  have htarget : twoPrograms.launch 20 (planFor name) =
      some (.attached (Agent.start (State.initial (twoPrograms.text? "/ws") program) none).1
        (Session.bytesOf
          (Agent.start (State.initial (twoPrograms.text? "/ws") program) none).2)) :=
    Host.launch_of_load rfl hparse hload rfl 20
  obtain ⟨l, launched, hhandle, hsuccess, hready, hpeer, hfrontier⟩ :=
    exists_launched rfl hplan htarget hfits hreceive hclose
  obtain ⟨l', placed, hplaces, hid, hready', hpeer', hfrontier'⟩ :=
    exists_setAll hready (by rw [hfrontier]) (by rw [hfrontier]; exact hinner)
      (HostMessage.heard?_of_fits ⟨by decide, by decide⟩ hsetting) (hpeer ▸ hplayed.set)
      (DebuggerMessage.heard?_of_fits ⟨⟨by decide, by decide⟩, ⟨by decide, by decide⟩⟩
        (by decide +kernel))
  exact ⟨launched, l, l', placed, hhandle, hsuccess, hplaces, hid,
    begun_of_rehearsed hplayed hready' (hfrontier'.trans hfrontier) hpeer'⟩

/-- A server with a session of a program, and the number of a breakpoint in it. -/
def withSession (s : Server (Agent State)) (l : Live (Agent State)) (name path : String) :
    Server (Agent State) :=
  { s with
    live := some l, plan := some (planFor name)
    breakpoints := (path, [1]) :: (s.forget path).breakpoints }

/-- The client sets the breakpoint in a file for which no breakpoints stand: the number one stands
for it then. -/
theorem handle_of_begun {path : String} {l l' : Live (Agent State)} {placed : PlacedBreakpoint}
    (hlive : s.live = some l) (hstanding : s.standing path = [])
    (hplaces : ∀ t : Server (Agent State), t.setAll 20 l path [(1, none)] =
      some ({ t with live := some l' }, .ok [placed]))
    (hid : placed.id = 1) (seq : Nat) (setting : Setting (Agent State)) :
    s.handle 20 setting (.settingLines seq path [1]) =
      some ({ s with live := some l', breakpoints := (path, [1]) :: (s.forget path).breakpoints },
        [(Request.settingLines seq path [1]).succeed (some (breakpointsBody [placed]))], .more) := by
  have hremove : (s.forget path).removeAll 20 l (s.standing path) = some (s.forget path, l) := by
    rw [hstanding]
    rfl
  have hids : ([placed].filter (·.isVerified)).map (·.id) = [1] := by
    simp [PlacedBreakpoint.isVerified, Session.unresolvedId, hid]
  have hhandle : s.handle 20 setting (.settingLines seq path [1]) = some (_, _, .more) :=
    handle_of_setAll (r := .settingLines seq path [1]) rfl rfl rfl hlive hremove (hplaces _)
  rw [hids] at hhandle
  exact hhandle

/-- The beginning of the first session of a server. -/
theorem exists_begun_atStart {name path : String}
    (h : (name = "a.mod" ∧ path = "/ws/a.mod") ∨ (name = "b.mod" ∧ path = "/ws/b.mod")) :
    ∃ t launched told l,
      atStart.handle 20 (Console.setting twoPrograms) (.launching 1 name) =
        some (t, launched, .more) ∧
      launched.any Content.isSuccess = true ∧
      t.handle 20 (Console.setting twoPrograms) (.settingLines 2 path [1]) =
        some (atStart.withSession l name path, told, .more) ∧
      Begun name l := by
  obtain ⟨launched, l, l', placed, hlaunch, hsuccess, hplaces, hid, hbegun⟩ :=
    exists_begun h (s := atStart) rfl rfl rfl 1
  have hset := handle_of_begun
    (s := { atStart with live := some l, plan := some (planFor name) }) rfl rfl hplaces hid 2
    (Console.setting twoPrograms)
  exact ⟨_, launched, _, l', hlaunch, hsuccess, hset, hbegun⟩

end Server

end Adapter

end ScriptDebugger
