import ScriptDebugger.Adapter.Server
import ScriptDebugger.Proofs.Wire.Lines
/-!
# What a request does

Of the session a request asks one thing at most that is not about breakpoints, unless it sets
breakpoints, launches a program or is the last one. The server keeps the numbers of the breakpoints
that it set, under the path of the request that set them. Requests that set breakpoints change the
entry of their path, and no other request touches the table.

## Main results

* `effect_of_handle` — what a request does.
* `replaced_of_setBreakpoints`, `of_launch` — how setting breakpoints and launching go.
-/

namespace ScriptDebugger.Adapter

open Session (Inquiry Failure Frontier PlacedBreakpoint)
open Wire (HostMessage)

/-- Whether a content is the response to a request that succeeded. -/
def Content.isSuccess : Content → Bool
  | .response _ success _ _ _ => success
  | _ => false

namespace Request

/-- A request to launch a program. -/
def launching (seq : Nat) (program : String) : Request :=
  ⟨seq, "launch", .object [("program", .string program)]⟩

/-- A request to set breakpoints on lines of a file. -/
def settingLines (seq : Nat) (path : String) (lines : List Nat) : Request :=
  ⟨seq, "setBreakpoints", .object
    [("source", .object [("path", .string path)]),
      ("breakpoints", .array (lines.map fun line => .object [("line", .ofNat line)]))]⟩

end Request

/-- A number among arguments is a word. -/
theorem number?_lt {j : Json} {key : String} {n : Nat} (h : number? j key = .ok (some n)) :
    n < UInt32.size := by
  unfold number? at h
  split at h
  · cases Except.ok.inj h
  · cases Except.ok.inj h
  · split at h
    · rename_i n' hn
      obtain rfl := Option.some.inj (Except.ok.inj h)
      exact Json.lt_of_nat32? hn
    · cases h

namespace Server

section

variable {π : Type}

/-! ## The table -/

theorem standing_forget (s : Server π) (path : String) : (s.forget path).standing path = [] := by
  have hnone : (s.breakpoints.filter fun b => b.1 != path).find? (fun b => b.1 == path) = none := by
    simp [List.find?_eq_none]
  rw [standing, forget, hnone]
  rfl

theorem standing_forget_of_ne (s : Server π) {path other : String} (h : other ≠ path) :
    (s.forget path).standing other = s.standing other := by
  simp only [standing, forget, List.find?_filter]
  congr 3
  funext entry
  by_cases hentry : entry.1 = other
  · simp [hentry, h]
  · simp [hentry]

/-- A new entry for a path. -/
theorem standing_cons (s : Server π) (path other : String) (ids : List Int) :
    ({ s with breakpoints := (path, ids) :: s.breakpoints } : Server π).standing other =
      if path = other then ids else s.standing other := by
  by_cases h : path = other
  · simp [standing, h]
  · simp [standing, h, List.find?_cons_of_neg]

theorem standing_congr {s s' : Server π} (h : s'.breakpoints = s.breakpoints) (path : String) :
    s'.standing path = s.standing path := by
  rw [standing, h, ← standing]

end

variable {π α : Type} [Target π] {fuel : Nat} {setting : Setting π} {s s' : Server π}
  {l l' : Live π} {r : Request} {sent : List Content} {flow : Flow}

/-! ## Asking -/

/-- What asking the session makes of the server. -/
theorem of_ask {q : Inquiry α} {outcome : Except Failure α}
    (h : s.ask fuel l q = some (s', l', outcome)) :
    ∃ session, l.session.ask fuel q = some (session, outcome) ∧ l' = { l with session } ∧
      s' = { s with live := some l' } := by
  obtain ⟨⟨session, answer⟩, hask, hresult⟩ := Option.map_eq_some_iff.1 h
  obtain ⟨rfl, hrest⟩ := Prod.mk.inj hresult
  obtain ⟨rfl, rfl⟩ := Prod.mk.inj hrest
  exact ⟨session, hask, rfl, rfl⟩

/-- What a request does. -/
inductive Effect (fuel : Nat) (setting : Setting π) (s : Server π) (r : Request) :
    Server π → List Content → Flow → Prop
  /-- It is answered without the session. -/
  | idle {sent : List Content} : Effect fuel setting s r s sent .more
  /-- It asks the session one thing, which is not about breakpoints. -/
  | asked {α : Type} {l : Live π} {q : Inquiry α} {session : Session π} {outcome : Except Failure α}
    {shown noticed : Nat} {sent : List Content} (hlive : s.live = some l)
    (hmessage : ¬q.message.ChangesBreakpoints)
    (hask : l.session.ask fuel q = some (session, outcome)) :
    Effect fuel setting s r { s with live := some ⟨session, shown, noticed⟩ } sent .more
  /-- It sets breakpoints. -/
  | replaced {s' : Server π} {sent : List Content} (hcommand : r.command = "setBreakpoints")
    (h : s.setBreakpoints fuel r = some (s', sent)) : Effect fuel setting s r s' sent .more
  /-- It launches a program. -/
  | launched {s' : Server π} {sent : List Content} (hcommand : r.command = "launch")
    (h : s.launch fuel setting r = some (s', sent)) : Effect fuel setting s r s' sent .more
  /-- It is the last one. -/
  | ended {sent : List Content} : Effect fuel setting s r { s with live := none } sent .stop

theorem effect_inquire {inquiry : Frontier → Except String (Inquiry α)} {body : α → Json}
    (hmessage : ∀ f q, inquiry f = .ok q → ¬q.message.ChangesBreakpoints)
    (h : s.inquire fuel r inquiry body = some (s', sent)) :
    Effect fuel setting s r s' sent .more := by
  unfold inquire at h
  split at h
  · obtain ⟨rfl, rfl⟩ := Prod.mk.inj (Option.some.inj h)
    exact .idle
  · rename_i l hlive
    split at h
    · obtain ⟨rfl, rfl⟩ := Prod.mk.inj (Option.some.inj h)
      exact .idle
    · rename_i q hq
      obtain ⟨⟨asked, live, outcome⟩, hask, hresult⟩ := Option.map_eq_some_iff.1 h
      obtain ⟨rfl, rfl⟩ := Prod.mk.inj hresult
      obtain ⟨session, hsession, rfl, rfl⟩ := of_ask hask
      exact .asked hlive (hmessage _ q hq) hsession

theorem effect_proceed {message : HostMessage} (hlive : s.live = some l)
    (hmessage : ¬message.ChangesBreakpoints) (h : s.proceed fuel l message = some (s', sent))
    (answer : List Content) : Effect fuel setting s r s' answer .more := by
  obtain ⟨⟨asked, live, outcome⟩, hask, hresult⟩ := Option.map_eq_some_iff.1 h
  obtain ⟨rfl, -⟩ := Prod.mk.inj hresult
  obtain ⟨session, hsession, rfl, rfl⟩ := of_ask hask
  exact .asked hlive hmessage hsession

theorem effect_resume {message : HostMessage} {body : Option Json}
    (hmessage : ¬message.ChangesBreakpoints) (h : s.resume fuel r message body = some (s', sent)) :
    Effect fuel setting s r s' sent .more := by
  unfold resume at h
  split at h
  · obtain ⟨rfl, rfl⟩ := Prod.mk.inj (Option.some.inj h)
    exact .idle
  · rename_i l hlive
    obtain ⟨⟨after, events⟩, hproceed, hresult⟩ := Option.map_eq_some_iff.1 h
    obtain ⟨rfl, rfl⟩ := Prod.mk.inj hresult
    exact effect_proceed hlive hmessage hproceed _

theorem effect_configured (h : s.configured fuel r = some (s', sent)) :
    Effect fuel setting s r s' sent .more := by
  unfold configured at h
  dsimp only at h
  split at h
  · obtain ⟨rfl, rfl⟩ := Prod.mk.inj (Option.some.inj h)
    exact .idle
  · split at h
    · obtain ⟨rfl, rfl⟩ := Prod.mk.inj (Option.some.inj h)
      exact .idle
    · rename_i l hlive
      obtain ⟨⟨after, events⟩, hproceed, hresult⟩ := Option.map_eq_some_iff.1 h
      obtain ⟨rfl, rfl⟩ := Prod.mk.inj hresult
      exact effect_proceed hlive id hproceed _

theorem effect_disconnect (h : s.disconnect fuel r = some (s', sent)) :
    Effect fuel setting s r s' sent .stop := by
  unfold disconnect at h
  dsimp only at h
  split at h
  · rename_i hlive
    obtain ⟨rfl, rfl⟩ := Prod.mk.inj (Option.some.inj h)
    have hended : Effect fuel setting s r { s with live := none } [r.succeed none] .stop := .ended
    rwa [show { s with live := none } = s by rw [← hlive]] at hended
  · obtain ⟨events, -, hresult⟩ := Option.map_eq_some_iff.1 h
    obtain ⟨rfl, rfl⟩ := Prod.mk.inj hresult
    exact .ended

omit [Target π] in
/-- A result under a flow that is known. -/
theorem of_map_flow {result : Option (Server π × List Content)} {known : Flow}
    (h : (result.map fun (s, contents) => (s, contents, known)) = some (s', sent, flow)) :
    result = some (s', sent) ∧ flow = known := by
  obtain ⟨⟨after, contents⟩, hresult, hsame⟩ := Option.map_eq_some_iff.1 h
  obtain ⟨rfl, hrest⟩ := Prod.mk.inj hsame
  obtain ⟨rfl, rfl⟩ := Prod.mk.inj hrest
  exact ⟨hresult, rfl⟩

theorem effect_of_more {result : Option (Server π × List Content)}
    (heffect : ∀ s' sent, result = some (s', sent) → Effect fuel setting s r s' sent .more)
    (h : (result.map fun (s, contents) => (s, contents, Flow.more)) = some (s', sent, flow)) :
    Effect fuel setting s r s' sent flow := by
  obtain ⟨hresult, rfl⟩ := of_map_flow h
  exact heffect _ _ hresult

theorem effect_of_last
    (h : ((s.disconnect fuel r).map fun (s, contents) => (s, contents, Flow.stop)) =
      some (s', sent, flow)) : Effect fuel setting s r s' sent flow := by
  obtain ⟨hresult, rfl⟩ := of_map_flow h
  exact effect_disconnect hresult

/-- An answer that needs no session. -/
theorem effect_answer {answer : List Content} (s' : Server π) (sent : List Content)
    (h : some (s, answer) = some (s', sent)) : Effect fuel setting s r s' sent .more := by
  obtain ⟨rfl, rfl⟩ := Prod.mk.inj (Option.some.inj h)
  exact .idle

/-- What was made of a value that was read. -/
theorem of_map_ok {ε β γ : Type} {e : Except ε β} {f : β → γ} {c : γ} (h : e.map f = .ok c) :
    ∃ b, e = .ok b ∧ c = f b := by
  cases e with
  | error e => cases h
  | ok b => exact ⟨b, rfl, (Except.ok.inj h).symm⟩

theorem of_stackInquiry {f : Frontier} {q : Inquiry (List Wire.StackFrame)}
    (h : stackInquiry r f = .ok q) : ∃ start count, q = Session.stack f start count := by
  unfold stackInquiry at h
  cases hstart : numberD r "startFrame" 0 with
  | error e => simp [hstart, bind, Except.bind] at h
  | ok start =>
      cases hlevels : numberD r "levels" 0 with
      | error e => simp [hstart, hlevels, bind, Except.bind] at h
      | ok levels =>
          simp only [hstart, hlevels, bind, Except.bind] at h
          exact ⟨start, _, (Except.ok.inj h).symm⟩

theorem of_assignInquiry {q : Inquiry Wire.Variable} (h : assignInquiry r = .ok q) :
    ∃ reference name value, q = Session.assign reference name value := by
  unfold assignInquiry at h
  cases hreference : numberD r "variablesReference" 0 with
  | error e => simp [hreference, bind, Except.bind] at h
  | ok reference =>
      simp only [hreference, bind, Except.bind, Session.assignText] at h
      split at h
      · exact ⟨reference, _, _, (Except.ok.inj h).symm⟩
      · cases h

/-- What a request does. -/
theorem effect_of_handle (h : s.handle fuel setting r = some (s', sent, flow)) :
    Effect fuel setting s r s' sent flow := by
  unfold handle at h
  dsimp only at h
  split at h
  -- The requests stand in the order of the server's table.
  · exact effect_of_more effect_answer h
  · exact effect_of_more (fun _ _ => .launched ‹_›) h
  · exact effect_of_more (fun _ _ => .replaced ‹_›) h
  · refine effect_of_more (fun _ _ => effect_inquire fun f q hq => ?_) h
    obtain ⟨line, -, rfl⟩ := of_map_ok hq
    exact id
  · exact effect_of_more (fun _ _ => effect_configured) h
  · exact effect_of_more effect_answer h
  · refine effect_of_more (fun _ _ => effect_inquire fun f q hq => ?_) h
    obtain ⟨start, count, rfl⟩ := of_stackInquiry hq
    exact id
  · refine effect_of_more (fun _ _ => effect_inquire fun f q hq => ?_) h
    obtain ⟨frameId, -, rfl⟩ := of_map_ok hq
    exact id
  · refine effect_of_more (fun _ _ => effect_inquire fun f q hq => ?_) h
    obtain ⟨reference, -, rfl⟩ := of_map_ok hq
    exact id
  · refine effect_of_more (fun _ _ => effect_inquire fun f q hq => ?_) h
    obtain ⟨reference, name, value, rfl⟩ := of_assignInquiry hq
    exact id
  · exact effect_of_more (fun _ _ => effect_resume id) h
  · exact effect_of_more (fun _ _ => effect_resume id) h
  · exact effect_of_more (fun _ _ => effect_resume id) h
  · exact effect_of_more (fun _ _ => effect_resume id) h
  · exact effect_of_last h
  · exact effect_of_last h
  · exact effect_of_more effect_answer h

theorem handle_setBreakpoints_eq (hcommand : r.command = "setBreakpoints") :
    s.handle fuel setting r =
      (s.setBreakpoints fuel r).map fun (s', sent) => (s', sent, .more) := by
  simp only [handle, hcommand]

theorem handle_launch_eq (hcommand : r.command = "launch") :
    s.handle fuel setting r = (s.launch fuel setting r).map fun (s', sent) => (s', sent, .more) := by
  simp only [handle, hcommand]

theorem of_handle_setBreakpoints (hcommand : r.command = "setBreakpoints")
    (h : s.handle fuel setting r = some (s', sent, flow)) :
    s.setBreakpoints fuel r = some (s', sent) ∧ flow = .more := by
  rw [handle_setBreakpoints_eq hcommand] at h
  exact of_map_flow h

theorem of_handle_launch (hcommand : r.command = "launch")
    (h : s.handle fuel setting r = some (s', sent, flow)) :
    s.launch fuel setting r = some (s', sent) ∧ flow = .more := by
  rw [handle_launch_eq hcommand] at h
  exact of_map_flow h

theorem handle_setBreakpoints (hcommand : r.command = "setBreakpoints")
    (h : s.setBreakpoints fuel r = some (s', sent)) :
    s.handle fuel setting r = some (s', sent, .more) := by
  rw [handle_setBreakpoints_eq hcommand, h, Option.map_some]

theorem handle_launch (hcommand : r.command = "launch")
    (h : s.launch fuel setting r = some (s', sent)) :
    s.handle fuel setting r = some (s', sent, .more) := by
  rw [handle_launch_eq hcommand, h, Option.map_some]

/-! ## Setting breakpoints -/

theorem removeAll_breakpoints {ids : List Int} (h : s.removeAll fuel l ids = some (s', l')) :
    s'.breakpoints = s.breakpoints := by
  induction ids generalizing s l with
  | nil =>
      obtain ⟨rfl, -⟩ := Prod.mk.inj (Option.some.inj h)
      rfl
  | cons id rest ih =>
      obtain ⟨⟨asked, live, outcome⟩, hask, hrest⟩ := Option.bind_eq_some_iff.1 h
      obtain ⟨session, -, -, rfl⟩ := of_ask hask
      exact ih (s := { s with live := some live }) hrest

theorem setAll_breakpoints {path : String} {asked : List (Nat × Option Nat)}
    {outcome : Except Failure (List PlacedBreakpoint)}
    (h : s.setAll fuel l path asked = some (s', outcome)) : s'.breakpoints = s.breakpoints := by
  induction asked generalizing s l outcome with
  | nil =>
      obtain ⟨rfl, -⟩ := Prod.mk.inj (Option.some.inj h)
      rfl
  | cons position rest ih =>
      obtain ⟨⟨asked, live, answer⟩, hask, hrest⟩ := Option.bind_eq_some_iff.1 h
      obtain ⟨session, -, -, rfl⟩ := of_ask hask
      cases answer with
      | error e =>
          obtain ⟨rfl, -⟩ := Prod.mk.inj (Option.some.inj hrest)
          rfl
      | ok first =>
          obtain ⟨⟨last, others⟩, hothers, hresult⟩ := Option.bind_eq_some_iff.1 hrest
          obtain ⟨rfl, -⟩ := Prod.mk.inj (Option.some.inj hresult)
          exact ih (s := { s with live := some live }) hothers

/-- How a request to set breakpoints goes. -/
inductive Replaced (fuel : Nat) (s : Server π) (r : Request) : Server π → List Content → Prop
  /-- It cannot be read, or there is no session. -/
  | refused {message : String}
    (h : (∃ e, askedBreakpoints r.arguments = .error e) ∨ s.live = none) :
    Replaced fuel s r s [r.fail message]
  /-- One breakpoint fails, and those that stood are forgotten. -/
  | failed {asked : List (Nat × Option Nat)} {l l' : Live π} {t u : Server π} {e : Failure}
    (hasked : askedBreakpoints r.arguments = .ok asked) (hlive : s.live = some l)
    (hremove : (s.forget (sourcePath r.arguments)).removeAll fuel l
      (s.standing (sourcePath r.arguments)) = some (t, l'))
    (hset : t.setAll fuel l' (sourcePath r.arguments) asked = some (u, .error e)) :
    Replaced fuel s r u [r.fail e.message]
  /-- The breakpoints are placed, and those that are verified stand. -/
  | placed {asked : List (Nat × Option Nat)} {l l' : Live π} {t u : Server π}
    {placed : List PlacedBreakpoint}
    (hasked : askedBreakpoints r.arguments = .ok asked) (hlive : s.live = some l)
    (hremove : (s.forget (sourcePath r.arguments)).removeAll fuel l
      (s.standing (sourcePath r.arguments)) = some (t, l'))
    (hset : t.setAll fuel l' (sourcePath r.arguments) asked = some (u, .ok placed)) :
    Replaced fuel s r
      { u with
        breakpoints := (sourcePath r.arguments, (placed.filter (·.isVerified)).map (·.id)) ::
          u.breakpoints }
      [r.succeed (some (breakpointsBody placed))]

theorem replaced_of_setBreakpoints (h : s.setBreakpoints fuel r = some (s', sent)) :
    Replaced fuel s r s' sent := by
  unfold setBreakpoints at h
  dsimp only at h
  split at h
  · rename_i e hasked
    obtain ⟨rfl, rfl⟩ := Prod.mk.inj (Option.some.inj h)
    exact .refused (.inl ⟨e, hasked⟩)
  · rename_i asked hasked
    split at h
    · rename_i hlive
      obtain ⟨rfl, rfl⟩ := Prod.mk.inj (Option.some.inj h)
      exact .refused (.inr hlive)
    · rename_i l hlive
      obtain ⟨⟨t, l'⟩, hremove, h⟩ := Option.bind_eq_some_iff.1 h
      obtain ⟨⟨u, outcome⟩, hset, h⟩ := Option.bind_eq_some_iff.1 h
      cases outcome with
      | error e =>
          obtain ⟨rfl, rfl⟩ := Prod.mk.inj (Option.some.inj h)
          exact .failed hasked hlive hremove hset
      | ok placed =>
          obtain ⟨rfl, rfl⟩ := Prod.mk.inj (Option.some.inj h)
          exact .placed hasked hlive hremove hset

/-- A request succeeds whose breakpoints are all placed. -/
theorem handle_of_setAll (hcommand : r.command = "setBreakpoints")
    {asked : List (Nat × Option Nat)} {path : String} {t u : Server π}
    {placed : List PlacedBreakpoint} (hpath : sourcePath r.arguments = path)
    (hasked : askedBreakpoints r.arguments = .ok asked) (hlive : s.live = some l)
    (hremove : (s.forget path).removeAll fuel l (s.standing path) = some (t, l'))
    (hset : t.setAll fuel l' path asked = some (u, .ok placed)) :
    s.handle fuel setting r = some
      ({ u with
          breakpoints := (path, (placed.filter (·.isVerified)).map (·.id)) :: u.breakpoints },
        [r.succeed (some (breakpointsBody placed))], .more) := by
  subst hpath
  refine handle_setBreakpoints hcommand ?_
  simp only [setBreakpoints, hasked, hlive, hremove, Option.bind_eq_bind, Option.bind_some, hset]

/-! ## Launching -/

theorem closeSession_eq (h : s.closeSession fuel = some (s', sent)) :
    s' = { s with live := none } := by
  unfold closeSession at h
  split at h
  · rename_i hlive
    rw [← hlive]
    exact (Prod.mk.inj (Option.some.inj h)).1.symm
  · obtain ⟨events, -, hresult⟩ := Option.map_eq_some_iff.1 h
    exact (Prod.mk.inj hresult).1.symm

/-- A launch fails and changes nothing, or it starts a session with the target, which takes the
place of the session before. -/
theorem of_launch (h : s.launch fuel setting r = some (s', sent)) :
    (s' = s ∧ sent.any Content.isSuccess = false) ∨
      ∃ plan peer opening session shown noticed,
        s.planOf? r = some plan ∧ setting.launch fuel plan = some (.attached peer opening) ∧
        Session.start fuel (Session.Connection.accept peer opening)
          ⟨plan.program, plan.workspace, plan.trace⟩ setting.mapperFor = some (.ok session) ∧
        s' = { s with live := some ⟨session, shown, noticed⟩, plan := some plan } ∧
        sent.any Content.isSuccess = true := by
  unfold launch at h
  split at h
  · obtain ⟨rfl, rfl⟩ := Prod.mk.inj (Option.some.inj h)
    exact .inl ⟨rfl, rfl⟩
  · rename_i plan hplan
    obtain ⟨launched, hlaunch, h⟩ := Option.bind_eq_some_iff.1 h
    cases launched with
    | failed reason =>
        obtain ⟨rfl, rfl⟩ := Prod.mk.inj (Option.some.inj h)
        exact .inl ⟨rfl, rfl⟩
    | exited status printed =>
        obtain ⟨rfl, rfl⟩ := Prod.mk.inj (Option.some.inj h)
        refine .inl ⟨rfl, ?_⟩
        simp [Content.isSuccess, Request.fail, lineEvents, outputEvent, eventOf]
    | attached peer opening =>
        obtain ⟨started, hstart, h⟩ := Option.bind_eq_some_iff.1 h
        cases started with
        | error failure =>
            obtain ⟨rfl, rfl⟩ := Prod.mk.inj (Option.some.inj h)
            exact .inl ⟨rfl, rfl⟩
        | ok session =>
            obtain ⟨⟨closed, events⟩, hclose, h⟩ := Option.bind_eq_some_iff.1 h
            obtain ⟨rfl, rfl⟩ := Prod.mk.inj (Option.some.inj h)
            obtain rfl := closeSession_eq hclose
            refine .inr ⟨plan, peer, opening, session, _, _, hplan, hlaunch, hstart, rfl, ?_⟩
            simp [Content.isSuccess, Request.succeed]

/-- A launch succeeds whose session starts. -/
theorem handle_of_start (hcommand : r.command = "launch") {plan : LaunchPlan} {peer : π}
    {opening : List UInt8} {session : Session π} {closed : Server π} {ended : List Content}
    (hplan : s.planOf? r = some plan)
    (htarget : setting.launch fuel plan = some (.attached peer opening))
    (hstart : Session.start fuel (Session.Connection.accept peer opening)
      ⟨plan.program, plan.workspace, plan.trace⟩ setting.mapperFor = some (.ok session))
    (hclose : s.closeSession fuel = some (closed, ended)) :
    ∃ shown noticed sent, s.handle fuel setting r =
        some ({ s with live := some ⟨session, shown, noticed⟩, plan := some plan }, sent, .more) ∧
      sent.any Content.isSuccess = true := by
  obtain rfl := closeSession_eq hclose
  let opened : Server π := { s with live := some { session }, plan := some plan }
  have hlaunch : s.launch fuel setting r = some (opened.drained.1,
      ended ++ r.succeed none :: .event "initialized" none :: opened.drained.2) := by
    simp only [launch, hplan, htarget, Option.bind_eq_bind, Option.bind_some, startSession, hstart,
      hclose]
    rfl
  refine ⟨_, _, _, handle_launch hcommand hlaunch, ?_⟩
  simp [Content.isSuccess, Request.succeed]

/-! ## Runs -/

/-- A server serves requests one after another, none of which ends the run. -/
inductive Served (fuel : Nat) (setting : Setting π) (s : Server π) :
    List Request → Server π → Prop
  /-- There are none. -/
  | nil : Served fuel setting s [] s
  /-- There is one more. -/
  | append {requests : List Request} {t u : Server π} {r : Request} {sent : List Content}
    (h : Served fuel setting s requests t)
    (hlast : t.handle fuel setting r = some (u, sent, .more)) :
    Served fuel setting s (requests ++ [r]) u

/-! ## What every question keeps -/

/-- What is so of the session of a server, if there is one. -/
def OfLive (P : Session π → Prop) (s : Server π) : Prop := ∀ l, s.live = some l → P l.session

/-- Every question that is put to a session keeps it. -/
def KeptByAsking (fuel : Nat) (P : Session π → Prop) : Prop :=
  ∀ {α : Type} {q : Inquiry α} {session session' : Session π} {outcome : Except Failure α},
    P session → session.ask fuel q = some (session', outcome) → P session'

section

variable {P : Session π → Prop} (hkept : KeptByAsking fuel P)

include hkept

theorem ofLive_removeAll {ids : List Int} (hl : P l.session) (hlive : s.live = some l)
    (h : s.removeAll fuel l ids = some (s', l')) : P l'.session ∧ s'.live = some l' := by
  induction ids generalizing s l with
  | nil =>
      obtain ⟨rfl, rfl⟩ := Prod.mk.inj (Option.some.inj h)
      exact ⟨hl, hlive⟩
  | cons id rest ih =>
      obtain ⟨⟨asked, live, outcome⟩, hask, hrest⟩ := Option.bind_eq_some_iff.1 h
      obtain ⟨session, hsession, rfl, rfl⟩ := of_ask hask
      exact ih (hkept hl hsession) rfl hrest

theorem ofLive_setAll {path : String} {asked : List (Nat × Option Nat)} (hl : P l.session)
    (hlive : s.live = some l) {outcome : Except Failure (List PlacedBreakpoint)}
    (h : s.setAll fuel l path asked = some (s', outcome)) : OfLive P s' := by
  induction asked generalizing s l outcome with
  | nil =>
      obtain ⟨rfl, -⟩ := Prod.mk.inj (Option.some.inj h)
      intro other hother
      obtain rfl := Option.some.inj (hlive.symm.trans hother)
      exact hl
  | cons position rest ih =>
      obtain ⟨⟨asked, live, answer⟩, hask, hrest⟩ := Option.bind_eq_some_iff.1 h
      obtain ⟨session, hsession, rfl, rfl⟩ := of_ask hask
      have hnext : P session := hkept hl hsession
      cases answer with
      | error e =>
          obtain ⟨rfl, -⟩ := Prod.mk.inj (Option.some.inj hrest)
          intro other hother
          obtain rfl := Option.some.inj hother
          exact hnext
      | ok first =>
          obtain ⟨⟨last, others⟩, hothers, hresult⟩ := Option.bind_eq_some_iff.1 hrest
          obtain ⟨rfl, -⟩ := Prod.mk.inj (Option.some.inj hresult)
          exact ih (l := { l with session }) hnext rfl hothers

/-- A request keeps what every question keeps, where sessions start with it. -/
theorem ofLive_handle (hstarts : ∀ {plan peer opening session},
      setting.launch fuel plan = some (.attached peer opening) →
      Session.start fuel (Session.Connection.accept peer opening)
        ⟨plan.program, plan.workspace, plan.trace⟩ setting.mapperFor = some (.ok session) →
      P session)
    (hlive : OfLive P s) (h : s.handle fuel setting r = some (s', sent, flow)) : OfLive P s' := by
  cases effect_of_handle h with
  | idle => exact hlive
  | asked hl _ hask =>
      intro other hother
      obtain rfl := Option.some.inj hother
      exact hkept (hlive _ hl) hask
  | replaced _ hreplaced =>
      cases replaced_of_setBreakpoints hreplaced with
      | refused => exact hlive
      | failed _ hl hremove hset =>
          have hforgotten : (s.forget (sourcePath r.arguments)).live = some _ := hl
          obtain ⟨hnext, hlive'⟩ := ofLive_removeAll hkept (hlive _ hl) hforgotten hremove
          exact ofLive_setAll hkept hnext hlive' hset
      | placed _ hl hremove hset =>
          have hforgotten : (s.forget (sourcePath r.arguments)).live = some _ := hl
          obtain ⟨hnext, hlive'⟩ := ofLive_removeAll hkept (hlive _ hl) hforgotten hremove
          have hafter := ofLive_setAll hkept hnext hlive' hset
          exact fun other hother => hafter other hother
  | launched _ hlaunch =>
      rcases of_launch hlaunch with ⟨rfl, -⟩ |
        ⟨plan, peer, opening, session, shown, noticed, -, htarget, hstart, rfl, -⟩
      · exact hlive
      · intro other hother
        obtain rfl := Option.some.inj hother
        exact hstarts htarget hstart
  | ended => nofun

end

end Server

end ScriptDebugger.Adapter
