import ScriptDebugger.Proofs.Adapter.Tasks
/-!
# Carrying out tasks

A server handles a request in one go: each outcome comes at once, and a program runs to its next
stop. Carrying out the task of the request in that way is what the server does. What is written
besides by the task are events.

## Main results

* `Server.handle_eq_play` — a server that handles a request carries out its task.
* `Server.of_launched`, `Server.of_closed`, `Server.of_proceed_desk` — what each part of a task makes
  of the desk.
-/

namespace ScriptDebugger.Adapter

open Session (Inquiry Failure Frontier PlacedBreakpoint)
open Wire (HostMessage)

/-! ## Carrying out a task -/

section

variable {π : Type} [Target π]

/-- What the serving thread of a server keeps. -/
def Server.desk (s : Server π) : Desk where
  config := s.config
  fallback := s.fallback
  session := s.live.map (·.session.frontier)
  plan := s.plan
  breakpoints := s.breakpoints

/-- What becomes of a launch, and what the events before and behind the answer are. -/
def Server.launched (fuel : Nat) (setting : Setting π) (s : Server π) (plan : LaunchPlan) :
    Option (Server π × Except String Frontier × List Content × List Content) := do
  match ← setting.launch fuel plan with
  | .failed reason => some (s, .error reason, [], [])
  | .exited status printed => some (s, .error (exitMessage status), [], printed.flatMap lineEvents)
  | .attached peer opening =>
    let options : Session.Options := ⟨plan.program, plan.workspace, plan.trace⟩
    let accepted := Session.Connection.accept peer opening
    match ← Session.start fuel accepted options setting.mapperFor with
    | .error (e, _) => some (s, .error e.message, [], [])
    | .ok session =>
      let (s, ended) ← s.closeSession fuel
      let (s, events) := Server.drained { s with live := some { session } }
      some (s, .ok session.frontier, ended, events)

/-- Ends the session, and the program with it if that is asked for. -/
def Server.closed (fuel : Nat) (terminate : Bool) (s : Server π) :
    Option (Server π × List Content) :=
  if terminate then some ({ s with live := none }, (s.live.map Live.abandon).getD [])
  else s.closeSession fuel

/-- Carries out a task, where every outcome comes at once. -/
def Task.play (fuel : Nat) (setting : Setting π) (s : Server π) :
    Task → Option (Server π × List Content)
  | .finish plan breakpoints => some ({ s with plan, breakpoints }, [])
  | .write content next => (play fuel setting s next).map fun (s, sent) => (s, content :: sent)
  | .ask q next => do
    let (s, _, outcome) ← s.ask fuel (← s.live) q
    play fuel setting s (next outcome)
  | .launch plan next => do
    let (s, outcome, before, behind) ← s.launched fuel setting plan
    let (s, sent) ← play fuel setting s (next outcome)
    some (s, before ++ sent ++ behind)
  | .spawn message next => do
    let (s, events) ← s.proceed fuel (← s.live) message
    let (s, sent) ← play fuel setting s next
    some (s, events ++ sent)
  | .close terminate next => do
    let (s, events) ← s.closed fuel terminate
    let (s, sent) ← play fuel setting s next
    some (s, events ++ sent)

variable {α : Type} (fuel : Nat) (setting : Setting π) (s : Server π) (r : Request)

namespace Task

theorem play_finish (plan : Option LaunchPlan) (breakpoints : List (String × List Int)) :
    (finish plan breakpoints).play fuel setting s = some ({ s with plan, breakpoints }, []) := rfl

theorem play_write (content : Content) (next : Task) :
    (write content next).play fuel setting s =
      (next.play fuel setting s).map fun (s', sent) => (s', content :: sent) := rfl

theorem play_ask (q : Inquiry α) (next : Except Failure α → Task) :
    (ask q next).play fuel setting s =
      s.live.bind fun l => (s.ask fuel l q).bind fun (s', _, outcome) =>
        (next outcome).play fuel setting s' := rfl

theorem play_launch (plan : LaunchPlan) (next : Except String Frontier → Task) :
    (launch plan next).play fuel setting s =
      (s.launched fuel setting plan).bind fun (s', outcome, before, behind) =>
        ((next outcome).play fuel setting s').bind fun (s', sent) =>
          some (s', before ++ sent ++ behind) := rfl

theorem play_spawn (message : HostMessage) (next : Task) :
    (spawn message next).play fuel setting s =
      s.live.bind fun l => (s.proceed fuel l message).bind fun (s', events) =>
        (next.play fuel setting s').bind fun (s', sent) => some (s', events ++ sent) := rfl

theorem play_close (terminate : Bool) (next : Task) :
    (close terminate next).play fuel setting s =
      (s.closed fuel terminate).bind fun (s', events) =>
        (next.play fuel setting s').bind fun (s', sent) => some (s', events ++ sent) := rfl

end Task

namespace Server

theorem inquire_eq_play (inquiry : Frontier → Except String (Inquiry α)) (body : α → Json) :
    s.inquire fuel r inquiry body = (s.desk.inquire r inquiry body).play fuel setting s := by
  obtain ⟨config, fallback, live, plan, breakpoints⟩ := s
  cases live with
  | none => rfl
  | some l =>
      simp only [inquire, Desk.inquire, desk, Option.map_some]
      cases inquiry l.session.frontier with
      | error message => rfl
      | ok q =>
          simp only [Task.play_ask, ask, Option.bind_some]
          cases l.session.ask fuel q <;> rfl

/-- Asking leaves the desk as it is. -/
theorem of_ask_desk {s s' : Server π} {l l' : Live π} {q : Inquiry α}
    {outcome : Except Failure α} (hlive : s.live = some l)
    (h : s.ask fuel l q = some (s', l', outcome)) : s'.live = some l' ∧ s'.desk = s.desk := by
  obtain ⟨session, hask, rfl, rfl⟩ := of_ask h
  obtain ⟨⟨connection, answer⟩, -, hresult⟩ := Option.map_eq_some_iff.1 hask
  obtain ⟨rfl, -⟩ := Prod.mk.inj hresult
  simp [desk, hlive]

/-- Only the session changes when a program goes on. -/
theorem of_proceed {s s' : Server π} {l : Live π} {message : HostMessage} {events : List Content}
    (h : s.proceed fuel l message = some (s', events)) :
    ∃ live, s' = { s with live := some live } := by
  obtain ⟨⟨asked, live, outcome⟩, hask, hresult⟩ := Option.map_eq_some_iff.1 h
  obtain ⟨session, -, -, rfl⟩ := of_ask hask
  obtain ⟨rfl, -⟩ := Prod.mk.inj hresult
  exact ⟨_, rfl⟩

theorem drained_desk (s : Server π) : s.drained.1.desk = s.desk := by
  unfold drained
  split
  · rfl
  · rename_i l hlive
    simp [desk, hlive, Live.drain]

theorem of_proceed_desk {s s' : Server π} {l : Live π} {message : HostMessage}
    {events : List Content} (hlive : s.live = some l)
    (h : s.proceed fuel l message = some (s', events)) : s'.desk = s.desk := by
  obtain ⟨⟨asked, live, outcome⟩, hask, hresult⟩ := Option.map_eq_some_iff.1 h
  obtain ⟨rfl, -⟩ := Prod.mk.inj hresult
  exact (drained_desk asked).trans (of_ask_desk fuel hlive hask).2

theorem play_spawn {l : Live π} (hlive : s.live = some l) (message : HostMessage) :
    (Task.spawn message s.desk.done).play fuel setting s = s.proceed fuel l message := by
  simp only [Task.play_spawn, hlive, Option.bind_some]
  cases hproceed : s.proceed fuel l message with
  | none => rfl
  | some result =>
      obtain ⟨s', events⟩ := result
      obtain ⟨live, rfl⟩ := of_proceed fuel hproceed
      simp [desk, Desk.done, Task.play_finish]

theorem resume_eq_play (message : HostMessage) (body : Option Json) :
    s.resume fuel r message body = (s.desk.resume r message body).play fuel setting s := by
  cases hlive : s.live with
  | none =>
      simp only [resume, Desk.resume, desk, hlive, Option.map_none]
      rfl
  | some l =>
      have hsession : s.desk.session = some l.session.frontier := by rw [desk, hlive]; rfl
      simp only [resume, Desk.resume, hlive, hsession, Task.play_write,
        play_spawn fuel setting s hlive]

theorem configured_eq_play :
    s.configured fuel r = (s.desk.configured r).play fuel setting s := by
  have hplan : s.desk.plan = s.plan := rfl
  simp only [configured, Desk.configured, Task.play_write, hplan]
  by_cases hentry : (s.plan.map (·.stopOnEntry)).getD true = true
  · simp only [if_pos hentry]
    rfl
  · simp only [if_neg hentry]
    cases hlive : s.live with
    | none =>
        simp only [desk, hlive, Option.map_none]
        rfl
    | some l =>
        have hsession : s.desk.session = some l.session.frontier := by rw [desk, hlive]; rfl
        simp only [hsession, play_spawn fuel setting s hlive]

theorem launch_eq_play :
    s.launch fuel setting r = (s.desk.launch r).play fuel setting s := by
  simp only [launch, Desk.launch, planOf?]
  cases LaunchArguments.ofJson? r.arguments with
  | none => rfl
  | some arguments =>
      have hplan : arguments.resolve s.desk.config s.desk.fallback =
          arguments.resolve s.config s.fallback := rfl
      simp only [Option.map_some, Task.play_launch, launched, hplan, Option.bind_eq_bind]
      generalize arguments.resolve s.config s.fallback = plan
      cases setting.launch fuel plan with
      | none => rfl
      | some result =>
          cases result with
          | failed reason => rfl
          | exited status printed => rfl
          | attached peer opening =>
              simp only [Option.bind_some, startSession, Option.bind_eq_bind]
              cases Session.start fuel (Session.Connection.accept peer opening)
                  ⟨plan.program, plan.workspace, plan.trace⟩ setting.mapperFor with
              | none => rfl
              | some started =>
                  cases started with
                  | error failure => rfl
                  | ok session =>
                      cases hclose : s.closeSession fuel with
                      | none => simp only [Option.bind_some, Option.bind_none]
                      | some closed =>
                          obtain ⟨s', ended⟩ := closed
                          obtain rfl := closeSession_eq hclose
                          simp only [Option.bind_some, drained, List.append_assoc]
                          rfl

theorem disconnect_eq_play :
    s.disconnect fuel r = (s.desk.disconnect r).play fuel setting s := by
  cases hlive : s.live with
  | none =>
      simp only [disconnect, Desk.disconnect, desk, hlive, Option.map_none]
      rfl
  | some l =>
      have hsession : s.desk.session = some l.session.frontier := by rw [desk, hlive]; rfl
      have hterminates : (r.command == "terminate" ||
          ((r.arguments.member? "terminateDebuggee").bind Json.bool?).getD false) = r.terminates :=
        rfl
      simp only [disconnect, Desk.disconnect, hlive, hsession, Task.play_close, closed,
        hterminates, closeSession]
      cases r.terminates with
      | true => rfl
      | false => cases l.close fuel <;> rfl

theorem of_removeAll_desk {ids : List Int} {s s' : Server π} {l l' : Live π}
    (hlive : s.live = some l) (h : s.removeAll fuel l ids = some (s', l')) :
    s'.live = some l' ∧ s'.desk = s.desk := by
  induction ids generalizing s l with
  | nil =>
      obtain ⟨rfl, rfl⟩ := Prod.mk.inj (Option.some.inj h)
      exact ⟨hlive, rfl⟩
  | cons id rest ih =>
      obtain ⟨⟨asked, live, outcome⟩, hask, hrest⟩ := Option.bind_eq_some_iff.1 h
      obtain ⟨hlive', hdesk⟩ := of_ask_desk fuel hlive hask
      exact (ih hlive' hrest).imp_right fun h => h.trans hdesk

theorem of_setAll_desk {path : String} {asked : List (Nat × Option Nat)} {s s' : Server π}
    {l : Live π} {outcome : Except Failure (List PlacedBreakpoint)} (hlive : s.live = some l)
    (h : s.setAll fuel l path asked = some (s', outcome)) : s'.desk = s.desk := by
  induction asked generalizing s l outcome with
  | nil =>
      obtain ⟨rfl, -⟩ := Prod.mk.inj (Option.some.inj h)
      rfl
  | cons position rest ih =>
      obtain ⟨⟨asked, live, answer⟩, hask, hrest⟩ := Option.bind_eq_some_iff.1 h
      obtain ⟨hlive', hdesk⟩ := of_ask_desk fuel hlive hask
      cases answer with
      | error e =>
          obtain ⟨rfl, -⟩ := Prod.mk.inj (Option.some.inj hrest)
          exact hdesk
      | ok first =>
          obtain ⟨⟨last, others⟩, hothers, hresult⟩ := Option.bind_eq_some_iff.1 hrest
          obtain ⟨rfl, -⟩ := Prod.mk.inj (Option.some.inj hresult)
          exact (ih hlive' hothers).trans hdesk

theorem play_removeAll (next : Task) (ids : List Int) {s : Server π} {l : Live π}
    (hlive : s.live = some l) :
    (Task.removeAll next ids).play fuel setting s =
      (s.removeAll fuel l ids).bind fun (s', _) => next.play fuel setting s' := by
  induction ids generalizing s l with
  | nil => rfl
  | cons id rest ih =>
      simp only [Task.removeAll, Task.play_ask, hlive, removeAll, Option.bind_eq_bind,
        Option.bind_some]
      cases hask : s.ask fuel l (Session.removeBreakpoint id) with
      | none => rfl
      | some asked =>
          obtain ⟨s', l', outcome⟩ := asked
          exact ih (of_ask_desk fuel hlive hask).1

theorem play_setAll {f : Frontier} (path : String) (asked : List (Nat × Option Nat))
    (next : Except Failure (List PlacedBreakpoint) → Task) {s : Server π} {l : Live π}
    (hlive : s.live = some l) (hfrontier : l.session.frontier = f) :
    (Task.setAll f path asked next).play fuel setting s =
      (s.setAll fuel l path asked).bind fun (s', outcome) =>
        (next outcome).play fuel setting s' := by
  induction asked generalizing s l next with
  | nil => rfl
  | cons position rest ih =>
      obtain ⟨line, column⟩ := position
      simp only [Task.setAll, Task.play_ask, hlive, setAll, Option.bind_eq_bind,
        Option.bind_some, hfrontier]
      cases hask : s.ask fuel l (Session.setBreakpoint f path line column) with
      | none => rfl
      | some answer =>
          obtain ⟨s', l', outcome⟩ := answer
          obtain ⟨hlive', hdesk⟩ := of_ask_desk fuel hlive hask
          have hsession : some l'.session.frontier = some l.session.frontier := by
            simpa [desk, hlive, hlive'] using congrArg Desk.session hdesk
          cases outcome with
          | error e => rfl
          | ok placed =>
              simp only [Option.bind_some]
              rw [ih _ hlive' ((Option.some.inj hsession).trans hfrontier)]
              cases s'.setAll fuel l' path rest <;> rfl

/-! The table of breakpoints plays no role while breakpoints are removed and set. -/

theorem ask_withTable (s : Server π) (l : Live π) (q : Inquiry α)
    (table : List (String × List Int)) :
    ({ s with breakpoints := table } : Server π).ask fuel l q =
      (s.ask fuel l q).map fun (s', l', outcome) =>
        ({ s' with breakpoints := table }, l', outcome) := by
  simp only [ask]
  cases l.session.ask fuel q <;> rfl

theorem removeAll_withTable (ids : List Int) (s : Server π) (l : Live π)
    (table : List (String × List Int)) :
    ({ s with breakpoints := table } : Server π).removeAll fuel l ids =
      (s.removeAll fuel l ids).map fun (s', l') => ({ s' with breakpoints := table }, l') := by
  induction ids generalizing s l with
  | nil => rfl
  | cons id rest ih =>
      simp only [removeAll, ask_withTable]
      cases s.ask fuel l (Session.removeBreakpoint id) with
      | none => rfl
      | some answer => exact ih answer.1 answer.2.1

theorem setAll_withTable (path : String) (asked : List (Nat × Option Nat)) (s : Server π)
    (l : Live π) (table : List (String × List Int)) :
    ({ s with breakpoints := table } : Server π).setAll fuel l path asked =
      (s.setAll fuel l path asked).map fun (s', outcome) =>
        ({ s' with breakpoints := table }, outcome) := by
  induction asked generalizing s l with
  | nil => rfl
  | cons position rest ih =>
      obtain ⟨line, column⟩ := position
      simp only [setAll, ask_withTable]
      cases s.ask fuel l (Session.setBreakpoint l.session.frontier path line column) with
      | none => rfl
      | some answer =>
          obtain ⟨s', l', outcome⟩ := answer
          cases outcome with
          | error e => rfl
          | ok placed =>
              simp only [Option.map_some, Option.bind_eq_bind, Option.bind_some, ih s' l']
              cases s'.setAll fuel l' path rest <;> rfl

theorem setBreakpoints_eq_play :
    s.setBreakpoints fuel r = (s.desk.setBreakpoints r).play fuel setting s := by
  simp only [setBreakpoints, Desk.setBreakpoints]
  cases askedBreakpoints r.arguments with
  | error e => rfl
  | ok asked =>
      cases hlive : s.live with
      | none =>
          simp only [desk, hlive, Option.map_none]
          rfl
      | some l =>
          have hsession : s.desk.session = some l.session.frontier := by rw [desk, hlive]; rfl
          generalize hpath : sourcePath r.arguments = path
          simp only [hsession, play_removeAll fuel setting _ _ hlive, forget, Option.bind_eq_bind,
            removeAll_withTable]
          show (Option.map _ (s.removeAll fuel l (s.standing path))).bind _ =
            (s.removeAll fuel l (s.standing path)).bind _
          cases hremove : s.removeAll fuel l (s.standing path) with
          | none => rfl
          | some removed =>
              obtain ⟨s', l'⟩ := removed
              obtain ⟨hlive', hdesk⟩ := of_removeAll_desk fuel hlive hremove
              have hfrontier : some l'.session.frontier = some l.session.frontier := by
                simpa [desk, hlive, hlive'] using congrArg Desk.session hdesk
              simp only [Option.map_some, Option.bind_some, setAll_withTable,
                play_setAll fuel setting path asked _ hlive' (Option.some.inj hfrontier)]
              cases hset : s'.setAll fuel l' path asked with
              | none => rfl
              | some result =>
                  obtain ⟨u, outcome⟩ := result
                  have hplan : u.plan = s.plan :=
                    congrArg Desk.plan ((of_setAll_desk fuel hlive' hset).trans hdesk)
                  obtain ⟨config, fallback, live, plan, breakpoints⟩ := u
                  obtain rfl : plan = s.plan := hplan
                  cases outcome <;> rfl

/-- What a request makes of the run. -/
theorem handle_eq_play :
    s.handle fuel setting r = ((s.desk.task r).play fuel setting s).map fun (s', sent) =>
      (s', sent, if r.isLast then .stop else .more) := by
  obtain ⟨seq, command, arguments⟩ := r
  simp only [handle, Desk.task]
  split
  · rfl
  · rw [launch_eq_play]
    rfl
  · rw [setBreakpoints_eq_play fuel setting]
    rfl
  · rw [inquire_eq_play fuel setting]
    rfl
  · rw [configured_eq_play fuel setting]
    rfl
  · rfl
  · rw [inquire_eq_play fuel setting]
    rfl
  · rw [inquire_eq_play fuel setting]
    rfl
  · rw [inquire_eq_play fuel setting]
    rfl
  · rw [inquire_eq_play fuel setting]
    rfl
  · rw [resume_eq_play fuel setting]
    rfl
  · rw [resume_eq_play fuel setting]
    rfl
  · rw [resume_eq_play fuel setting]
    rfl
  · rw [resume_eq_play fuel setting]
    rfl
  · rw [disconnect_eq_play fuel setting]
    rfl
  · rw [disconnect_eq_play fuel setting]
    rfl
  · rename_i hdisconnect hterminate
    have hlast : (⟨seq, command, arguments⟩ : Request).isLast = false := by
      simpa [Request.isLast] using And.intro hdisconnect hterminate
    simp only [hlast]
    rfl

/-! ## Events on the way -/

theorem isEvent_of_mem_lineEvents {line : String} {c : Content} (h : c ∈ lineEvents line) :
    c.IsEvent := by
  obtain ⟨cs, -, rfl⟩ := List.mem_map.1 h
  exact ⟨_, _, rfl⟩

theorem isEvent_of_mem_drain {l : Live π} {c : Content} (h : c ∈ l.drain.2) : c.IsEvent := by
  rcases List.mem_append.1 h with h | h
  · obtain ⟨line, -, hline⟩ := List.mem_flatMap.1 h
    exact isEvent_of_mem_lineEvents hline
  · obtain ⟨notice, -, rfl⟩ := List.mem_map.1 h
    cases notice <;> exact ⟨_, _, rfl⟩

theorem isEvent_of_mem_drained {s : Server π} {c : Content} (h : c ∈ s.drained.2) : c.IsEvent := by
  unfold drained at h
  split at h
  · cases h
  · exact isEvent_of_mem_drain h

/-- What a program shows while it goes on are events. -/
theorem isEvent_of_proceed {s s' : Server π} {l : Live π} {message : HostMessage}
    {events : List Content} (h : s.proceed fuel l message = some (s', events)) :
    ∀ c ∈ events, c.IsEvent := by
  obtain ⟨⟨asked, live, outcome⟩, -, hresult⟩ := Option.map_eq_some_iff.1 h
  obtain ⟨-, rfl⟩ := Prod.mk.inj hresult
  intro c hc
  rcases List.mem_append.1 hc with hc | hc
  · exact isEvent_of_mem_drained hc
  · unfold resumeEvents at hc
    split at hc
    · cases hc
    · cases hc
    · obtain rfl := List.mem_singleton.1 hc
      exact ⟨_, _, rfl⟩

/-- What the end of a session shows are events. -/
theorem isEvent_of_closeSession {s s' : Server π} {events : List Content}
    (h : s.closeSession fuel = some (s', events)) : ∀ c ∈ events, c.IsEvent := by
  unfold closeSession at h
  split at h
  · obtain ⟨-, rfl⟩ := Prod.mk.inj (Option.some.inj h)
    exact fun c hc => nomatch hc
  · obtain ⟨events', hclose, hresult⟩ := Option.map_eq_some_iff.1 h
    obtain ⟨-, rfl⟩ := Prod.mk.inj hresult
    obtain ⟨session, -, rfl⟩ := Option.map_eq_some_iff.1 hclose
    exact fun c hc => isEvent_of_mem_drain hc

theorem of_closed {terminate : Bool} {s s' : Server π} {events : List Content}
    (h : s.closed fuel terminate = some (s', events)) :
    s'.desk = { s.desk with session := none } ∧ ∀ c ∈ events, c.IsEvent := by
  unfold closed at h
  split at h
  · obtain ⟨rfl, rfl⟩ := Prod.mk.inj (Option.some.inj h)
    refine ⟨rfl, fun c hc => ?_⟩
    cases hlive : s.live with
    | none => simp [hlive] at hc
    | some l =>
        rw [hlive] at hc
        exact isEvent_of_mem_drain hc
  · exact ⟨closeSession_eq h ▸ rfl, isEvent_of_closeSession fuel h⟩

/-- What becomes of the desk by a launch. -/
theorem of_launched {plan : LaunchPlan} {s s' : Server π} {outcome : Except String Frontier}
    {before behind : List Content}
    (h : s.launched fuel setting plan = some (s', outcome, before, behind)) :
    (∀ c ∈ before, c.IsEvent) ∧ (∀ c ∈ behind, c.IsEvent) ∧
      ((∃ reason, outcome = .error reason ∧ s'.desk = s.desk) ∨
        ∃ f, outcome = .ok f ∧ s'.desk = { s.desk with session := some f }) := by
  have hnone : ∀ c ∈ ([] : List Content), c.IsEvent := nofun
  obtain ⟨result, -, h⟩ := Option.bind_eq_some_iff.1 h
  cases result with
  | failed reason =>
      cases h
      exact ⟨hnone, hnone, .inl ⟨_, rfl, rfl⟩⟩
  | exited status printed =>
      cases h
      refine ⟨hnone, fun c hc => ?_, .inl ⟨_, rfl, rfl⟩⟩
      obtain ⟨line, -, hline⟩ := List.mem_flatMap.1 hc
      exact isEvent_of_mem_lineEvents hline
  | attached peer opening =>
      obtain ⟨started, -, h⟩ := Option.bind_eq_some_iff.1 h
      cases started with
      | error failure =>
          cases h
          exact ⟨hnone, hnone, .inl ⟨_, rfl, rfl⟩⟩
      | ok session =>
          obtain ⟨⟨closed, ended⟩, hclose, h⟩ := Option.bind_eq_some_iff.1 h
          obtain rfl := closeSession_eq hclose
          cases h
          exact ⟨isEvent_of_closeSession fuel hclose,
            fun c hc => isEvent_of_mem_drain (l := { session }) hc, .inr ⟨_, rfl, rfl⟩⟩

end Server

end

end ScriptDebugger.Adapter
